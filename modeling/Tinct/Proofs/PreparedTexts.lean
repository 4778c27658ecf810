import Mathlib.Data.List.DropRight
import Tinct.Proofs.LineEndings
import Tinct.Proofs.Reconstruction

/-!
# Prepared texts stay as they are

A text is clean for a preparation if the steps before the last one find nothing to do in it.  The
steps leave a clean text behind, in which none of them undoes another, and they leave a clean text
as it is.  The last step only adds the final line feed, which is what a listing leaves out of its
text: so the text of a listing is prepared to the text that the listing was made from.

## Key results

- `clean_eq_self_iff`: the clean texts are the ones that the steps leave as they are
- `apply_withoutFinal`: a prepared text without its final line feed has the same prepared form
- `Session.tokenize_source`: the listing of the text of a listing is that listing
-/

namespace Tinct

namespace Preparation

/-! ## Single steps -/

/-- Unified line endings have no carriage return. -/
theorem return_not_mem_unifyLineEndings (text : List Char) : '\r' ∉ unifyLineEndings text := by
  intro hmem
  obtain ⟨c, -, hc⟩ := List.mem_map.mp hmem
  split at hc
  · cases hc
  · rename_i hne
    exact hne hc

/-- Without carriage returns all line endings stay. -/
theorem unifyLineEndings_of_not_mem {text : List Char} (h : '\r' ∉ text) :
    unifyLineEndings text = text := by
  induction text with
  | nil => rfl
  | cons c rest ih =>
    rw [List.mem_cons, not_or] at h
    rw [unifyLineEndings_of_ne (Ne.symm h.1), ih h.2]

/-- A text that neither starts nor ends with a line feed. -/
structure IsTrimmed (text : List Char) : Prop where
  head?_ne : text.head? ≠ some '\n'
  getLast?_ne : text.getLast? ≠ some '\n'

/-- Trimming leaves a trimmed text. -/
theorem isTrimmed_trimNewlines (text : List Char) : IsTrimmed (trimNewlines text) := by
  have hpre : trimNewlines text <+: text.dropWhile (· = '\n') := List.rdropWhile_prefix _ _
  constructor
  · intro hhead
    -- the first line feed would have been dropped at the start
    obtain ⟨rest, hrest⟩ := List.head?_eq_some_iff.mp hhead
    obtain ⟨back, hback⟩ := hrest ▸ hpre
    have hnot := List.head?_dropWhile_not (· = '\n') text
    rw [← hback] at hnot
    simp at hnot
  · intro hlast
    -- the last one would have been dropped at the end
    have hnot := List.head?_dropWhile_not (· = '\n') (text.dropWhile (· = '\n')).reverse
    rw [trimNewlines, List.getLast?_reverse] at hlast
    rw [hlast] at hnot
    simp at hnot

/-- A trimmed text stays. -/
theorem trimNewlines_of_isTrimmed {text : List Char} (h : IsTrimmed text) :
    trimNewlines text = text := by
  -- no line feed is dropped at the start, nor at the end
  have hfront : text.dropWhile (· = '\n') = text := by
    cases text with
    | nil => rfl
    | cons c rest =>
      have hc : c ≠ '\n' := by simpa using h.head?_ne
      exact List.dropWhile_cons_of_neg (by simpa using hc)
  have hback : text.reverse.dropWhile (· = '\n') = text.reverse := by
    cases hreverse : text.reverse with
    | nil => rfl
    | cons c rest =>
      have hlast : text.getLast? = some c := by
        rw [← List.head?_reverse, hreverse, List.head?_cons]
      have hc : c ≠ '\n' := by
        intro heq
        exact h.getLast?_ne (heq ▸ hlast)
      exact List.dropWhile_cons_of_neg (by simpa using hc)
  rw [trimNewlines, hfront, hback, List.reverse_reverse]

theorem expandTabs_cons (size : Nat) (c : Char) (rest : List Char) :
    expandTabs size (c :: rest) =
      (if c = '\t' then List.replicate size ' ' else [c]) ++ expandTabs size rest := rfl

/-- Expanding tabs only adds spaces. -/
theorem mem_of_mem_expandTabs {size : Nat} {c : Char} {text : List Char}
    (h : c ∈ expandTabs size text) : c = ' ' ∨ c ∈ text ∧ c ≠ '\t' := by
  obtain ⟨d, hd, hc⟩ := List.mem_flatMap.mp h
  split at hc
  · exact .inl (List.eq_of_mem_replicate hc)
  · rename_i hne
    obtain rfl := List.mem_singleton.mp hc
    exact .inr ⟨hd, hne⟩

/-- Without tabs the text stays. -/
theorem expandTabs_of_not_mem (size : Nat) {text : List Char} (h : '\t' ∉ text) :
    expandTabs size text = text := by
  induction text with
  | nil => rfl
  | cons c rest ih =>
    rw [List.mem_cons, not_or] at h
    rw [expandTabs_cons, if_neg (Ne.symm h.1), ih h.2, List.singleton_append]

/-- What a character other than a line feed becomes has no outer line feed. -/
private theorem isTrimmed_expanded {size : Nat} (hsize : size ≠ 0) {c : Char} (hc : c ≠ '\n') :
    (if c = '\t' then List.replicate size ' ' else [c]) ≠ [] ∧
      IsTrimmed (if c = '\t' then List.replicate size ' ' else [c]) := by
  split
  · obtain ⟨n, rfl⟩ := Nat.exists_eq_succ_of_ne_zero hsize
    exact ⟨by simp, by simp [List.replicate_succ], by simp [List.getLast?_replicate]⟩
  · exact ⟨by simp, by simpa using hc, by simpa using hc⟩

/-- Where a tab becomes at least one space, no outer line feed comes to light. -/
theorem isTrimmed_expandTabs {size : Nat} (hsize : size ≠ 0) {text : List Char}
    (h : IsTrimmed text) : IsTrimmed (expandTabs size text) := by
  constructor
  · -- the first character stays, or becomes spaces
    cases text with
    | nil => simp [expandTabs]
    | cons c rest =>
      have hc : c ≠ '\n' := by simpa using h.head?_ne
      obtain ⟨hne, htrimmed⟩ := isTrimmed_expanded hsize hc
      rw [expandTabs_cons, List.head?_append_of_ne_nil _ hne]
      exact htrimmed.head?_ne
  · rcases List.eq_nil_or_concat text with rfl | ⟨front, c, rfl⟩
    · simp [expandTabs]
    · -- and so does the last one
      rw [List.concat_eq_append] at h ⊢
      have hc : c ≠ '\n' := by simpa using h.getLast?_ne
      obtain ⟨hne, htrimmed⟩ := isTrimmed_expanded hsize hc
      rw [expandTabs, List.flatMap_append, List.flatMap_singleton,
        List.getLast?_append_of_ne_nil _ hne]
      exact htrimmed.getLast?_ne

/-! ## The steps before the last one -/

/-- The step that unifies line endings, if it is asked for. -/
def unify (p : Preparation) (text : List Char) : List Char :=
  if p.normalizeLineEndings then unifyLineEndings text else text

/-- The step that drops outer line feeds, if it is asked for. -/
def trim (p : Preparation) (text : List Char) : List Char :=
  if p.stripNewlines then trimNewlines text else text

/-- The step that expands tabs, if it is asked for. -/
def expand (p : Preparation) (text : List Char) : List Char :=
  if p.tabSize = 0 then text else expandTabs p.tabSize text

/-- The text after the steps before the last one. -/
def clean (p : Preparation) (text : List Char) : List Char := p.expand (p.trim (p.unify text))

/-- A prepared text is the clean one, with its last line ended if this is asked for. -/
theorem applyChars_eq (p : Preparation) (text : List Char) :
    p.applyChars text = if p.ensureTrailingNewline then endLine (p.clean text) else p.clean text :=
  rfl

variable {p : Preparation} {text : List Char} {c : Char}

theorem mem_of_mem_trim (h : c ∈ p.trim text) : c ∈ text := by
  rw [trim] at h
  split at h
  · exact (List.dropWhile_suffix _).mem ((List.rdropWhile_prefix _ _).mem h)
  · exact h

/-- Expanding adds spaces only. -/
theorem mem_of_mem_expand (h : c ∈ p.expand text) : c = ' ' ∨ c ∈ text := by
  rw [expand] at h
  split at h
  · exact .inr h
  · exact (mem_of_mem_expandTabs h).imp_right (·.1)

/-- Expanding leaves no tabs. -/
theorem tab_not_mem_expand (hp : p.tabSize ≠ 0) : '\t' ∉ p.expand text := by
  intro h
  rw [expand, if_neg hp] at h
  rcases mem_of_mem_expandTabs h with hspace | ⟨-, hne⟩
  · exact absurd hspace (by decide)
  · exact hne rfl

/-- Expanding keeps a text trimmed. -/
theorem isTrimmed_expand (h : IsTrimmed text) : IsTrimmed (p.expand text) := by
  rw [expand]
  split
  · exact h
  · rename_i hsize
    exact isTrimmed_expandTabs hsize h

theorem unify_of_not_mem (h : p.normalizeLineEndings = true → '\r' ∉ text) : p.unify text = text :=
  ite_eq_right_iff.mpr fun hp => unifyLineEndings_of_not_mem (h hp)

theorem expand_of_not_mem (h : p.tabSize ≠ 0 → '\t' ∉ text) : p.expand text = text :=
  ite_eq_left_iff.mpr fun hp => expandTabs_of_not_mem _ (h hp)

/-- A text in which the steps before the last one find nothing to do. -/
structure IsClean (p : Preparation) (text : List Char) : Prop where
  no_return : p.normalizeLineEndings = true → '\r' ∉ text
  trimmed : p.stripNewlines = true → IsTrimmed text
  no_tab : p.tabSize ≠ 0 → '\t' ∉ text

theorem clean_of_isClean (h : p.IsClean text) : p.clean text = text := by
  have htrim : p.trim text = text :=
    ite_eq_right_iff.mpr fun hp => trimNewlines_of_isTrimmed (h.trimmed hp)
  rw [clean, unify_of_not_mem h.no_return, htrim, expand_of_not_mem h.no_tab]

/-- The steps leave a clean text behind: none of them brings back what an earlier one took away. -/
theorem isClean_clean (p : Preparation) (text : List Char) : p.IsClean (p.clean text) where
  no_return hp hmem := by
    rcases mem_of_mem_expand hmem with hspace | hold
    · exact absurd hspace (by decide)
    · have hunified := mem_of_mem_trim hold
      rw [unify, if_pos hp] at hunified
      exact return_not_mem_unifyLineEndings text hunified
  trimmed hp := by
    refine isTrimmed_expand ?_
    rw [trim, if_pos hp]
    exact isTrimmed_trimNewlines _
  no_tab hp := tab_not_mem_expand hp

/-- The clean texts are the ones that the steps leave as they are. -/
theorem clean_eq_self_iff : p.clean text = text ↔ p.IsClean text := by
  constructor
  · intro h
    rw [← h]
    exact p.isClean_clean text
  · exact clean_of_isClean

/-! ## Prepared texts without their final line feed -/

/-- Where outer line feeds are dropped, the only one that a prepared text can end in is the one that
    the last step adds. -/
theorem withoutFinal_applyChars (hp : p.stripNewlines = true) (text : List Char) :
    withoutFinal '\n' (p.applyChars text) = p.clean text := by
  have hlast := ((p.isClean_clean text).trimmed hp).getLast?_ne
  rw [applyChars_eq]
  split
  · rw [endLine, if_neg hlast, withoutFinal_concat_self]
  · rw [withoutFinal_of_getLast?_ne hlast]

/-- A prepared text without its final line feed has the same prepared form. -/
theorem apply_withoutFinal (hp : p.stripNewlines = true) (source : String) :
    p.apply (String.ofList (withoutFinal '\n' (p.apply source).toList)) = p.apply source := by
  have hagain : p.clean (p.clean source.toList) = p.clean source.toList :=
    clean_of_isClean (p.isClean_clean _)
  simp only [apply, String.toList_ofList, withoutFinal_applyChars hp]
  rw [applyChars_eq, applyChars_eq, hagain]

end Preparation

/-! ## Listings of listings -/

/-- A built-in lexer is found under its name and under each of its aliases. -/
theorem Lexers.find_builtin {lexer : Lexer} (h : lexer ∈ builtin.byName.values) {name : String}
    (hname : name = lexer.name ∨ name ∈ lexer.aliases) : builtin.find name = .ok lexer := by
  rw [← List.mem_cons] at hname
  rcases Lexer.mem_builtin_iff.mp h with rfl | rfl | rfl
  all_goals
    simp only [Lexer.json, Lexer.python, Lexer.plainText, List.mem_cons, List.not_mem_nil,
      or_false] at hname
  · subst hname
    rfl
  · rcases hname with rfl | rfl | rfl | rfl <;> rfl
  · rcases hname with rfl | rfl | rfl <;> rfl

namespace Session

/-- A listing by a lexer that reproduces its texts is the listing of its own text. -/
theorem tokenizeWith_source {s : Session} (hstrip : s.settings.preparation.stripNewlines = true)
    {lexer : Lexer} (h : lexer.Reproduces) (source : String) :
    s.tokenizeWith lexer (s.tokenizeWith lexer source).source = s.tokenizeWith lexer source := by
  have hholds : (s.tokenizeWith lexer source).Holds (s.settings.preparation.apply source) :=
    tokenizeWith_holds h
  have hsource := hholds.source_eq
  have hprepared := Preparation.apply_withoutFinal hstrip source
  rw [← hsource] at hprepared
  rw [tokenizeWith, hprepared, ← tokenizeWith]

/-- The built-in lexers reproduce their texts and are found under their names and aliases; and where
    outer line feeds are dropped, a lexer that is found and reproduces its texts gives a listing of
    every source text, and of the text of this listing the same one. -/
theorem tokenize_source :
    (∀ lexer ∈ Lexers.builtin.byName.values, lexer.Reproduces ∧
      ∀ name, name = lexer.name ∨ name ∈ lexer.aliases →
        Lexers.builtin.find name = .ok lexer) ∧
    ∀ s : Session, s.settings.preparation.stripNewlines = true →
      ∀ (name : String) (lexer : Lexer), s.lexers.find name = .ok lexer → lexer.Reproduces →
        ∀ source : String, ∃ listing,
          s.tokenize source (.named name) = .ok listing ∧
          s.tokenize listing.source (.named name) = .ok listing := by
  refine ⟨fun lexer hmem => ⟨Lexer.reproduces_of_mem_builtin hmem, fun name hname =>
    Lexers.find_builtin hmem hname⟩, fun s hstrip name lexer hfind hreproduces source => ?_⟩
  -- a lexer that is named does not depend on the source text
  have htokenize : ∀ text, s.tokenize text (.named name) = .ok (s.tokenizeWith lexer text) := by
    intro text
    rw [tokenize, select, find, hfind]
    rfl
  refine ⟨s.tokenizeWith lexer source, htokenize source, ?_⟩
  -- the text of the listing is prepared already, but for its last line feed
  rw [htokenize, tokenizeWith_source hstrip hreproduces]

/-- Tabs that are expanded behind a line ending, and no line feed added at the end. -/
theorem tokenize_source_of_tab :
    let s : Session := { settings.preparation := { ensureTrailingNewline := false, tabSize := 2 } }
    s.settings.preparation.stripNewlines = true ∧ s.lexers.find "txt" = .ok .plainText ∧
      ∃ listing, s.tokenize "\r\n\tx\n\ny\n" (.named "txt") = .ok listing ∧
        s.tokenize listing.source (.named "txt") = .ok listing := by
  intro s
  obtain ⟨hbuiltin, h⟩ := tokenize_source
  obtain ⟨hreproduces, hfind⟩ := hbuiltin .plainText (Lexer.mem_builtin_iff.mpr (by simp))
  have hname : s.lexers.find "txt" = .ok .plainText := hfind "txt" (.inr (by decide))
  exact ⟨rfl, hname, h s rfl "txt" .plainText hname hreproduces _⟩

/-- Where outer line feeds are kept, the one that a listing leaves out of its text is missing when
    the text is read again. -/
example :
    let s : Session := { settings.preparation := { stripNewlines := false } }
    s.tokenize "\n\n" (.named "text") = .ok ⟨[[], []]⟩ ∧
      s.tokenize (Listing.mk [[], []]).source (.named "text") = .ok ⟨[[]]⟩ := by
  decide

end Session

end Tinct
