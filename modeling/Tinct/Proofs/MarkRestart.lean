import Tinct.Proofs.JsonLexemes

/-!
# JSON is read afresh behind a mark

Only a string can hold a mark, and a string that is still open at the mark would be the last lexeme
up to there.  So where the last lexeme of a text is a mark, no lexeme of the text can reach beyond
it, whatever follows.  Colons are looked for behind blanks only, and a mark is none.

## Key results

- `stringContent_of_prefix`: a run of characters of strings, cut off behind a mark
- `prefix_of_matches`: a match does not reach beyond the mark
- `lexemes_append_of_mark`: the lexemes of a text behind a mark
- `fragments_append_of_mark`: and its fragments
-/

namespace Tinct.Lexer

namespace JsonText

open Json

/-! ## Marks in matches -/

/-- A run of characters of strings that is cut off, but not within an escape, is one again. -/
theorem stringContent_of_prefix {run front : List Char} (hrun : stringContent.Matches run)
    (hfront : front <+: run) (hlast : front.getLast? ≠ some '\\') :
    stringContent.Matches front := by
  -- the last character is also that of the rest
  have hbehind : ∀ {c : Char} {rest : List Char}, (c :: rest).getLast? ≠ some '\\' →
      rest.getLast? ≠ some '\\' := by
    intro c rest hne hrest
    rw [List.getLast?_cons, hrest] at hne
    exact hne rfl
  match run, front, hrun, hfront, hlast with
  | _, [], _, _, _ => exact .done
  | c :: run, d :: front, hrun, hfront, hlast =>
    obtain ⟨rfl, htail⟩ := List.cons_prefix_cons.mp hfront
    rcases stringContent_cons_iff.mp hrun with
      ⟨hquote, hslash, hrest⟩ | ⟨rfl, e, rest, he, rfl, hrest⟩
    · have hcontent := stringContent_of_prefix hrest htail (hbehind hlast)
      exact stringContent_cons_iff.mpr (.inl ⟨hquote, hslash, hcontent⟩)
    · -- the escape is not cut, since its backslash is not the last character
      cases front with
      | nil => exact absurd rfl hlast
      | cons d front =>
        obtain ⟨rfl, hback⟩ := List.cons_prefix_cons.mp htail
        have hcontent := stringContent_of_prefix hrest hback (hbehind (hbehind hlast))
        exact stringContent_cons_iff.mpr (.inr ⟨rfl, d, front, he, rfl, hcontent⟩)
termination_by run.length

/-- Only strings hold marks and more. -/
private theorem rules_avoid_marks :
    ∀ r ∈ grammar.rules, (r.kind = .colon ∨ r.kind = .punctuation) ∨
      (r.kind = .string ∨ r.kind = .openString) ∨
        (Token.marks.all fun c => decide (r.pattern.allows c = false)) = true := by
  decide

/-- A text with a final mark is an open string, if a string starts with it. -/
theorem exists_run_of_prefix {r : Rule Kind} (hr : r ∈ grammar.rules)
    (hkind : r.kind = .string ∨ r.kind = .openString) {text w : List Char} {c : Char}
    (hc : c ∈ Token.marks) (htext : text.getLast? = some c) (hpre : text <+: w)
    (h : r.pattern.Matches w) : ∃ run, text = '"' :: run ∧ stringContent.Matches run := by
  have hmarks : ∀ c ∈ Token.marks, c ≠ '"' ∧ c ≠ '\\' := forall_mem_of_all (by decide)
  obtain ⟨hquote, hslash⟩ := hmarks c hc
  -- the closing quote, if there is one, is not within the text
  obtain ⟨run, hrun, hpre⟩ : ∃ run, stringContent.Matches run ∧ text <+: '"' :: run := by
    rcases hkind with hkind | hkind
    · obtain ⟨run, rfl, hrun⟩ := exists_run_of_string hr hkind h
      rw [← List.cons_append, List.prefix_concat_iff] at hpre
      rcases hpre with rfl | hpre
      · rw [List.getLast?_concat] at htext
        exact absurd (Option.some.inj htext).symm hquote
      · exact ⟨run, hrun, hpre⟩
    · obtain ⟨run, rfl, hrun⟩ := exists_run_of_openString hr hkind h
      exact ⟨run, hrun, hpre⟩
  rcases List.prefix_cons_iff.mp hpre with rfl | ⟨front, rfl, hfront⟩
  · cases htext
  · -- the mark at the end of the text is no backslash
    refine ⟨front, rfl, stringContent_of_prefix hrun hfront fun hlast => ?_⟩
    rw [List.getLast?_cons, hlast] at htext
    exact hslash (Option.some.inj htext).symm

/-- What a rule describes at the start of a text with a final mark does not reach beyond it, if the
    text is no open string. -/
theorem prefix_of_matches {r : Rule Kind} (hr : r ∈ grammar.rules) {text more w : List Char}
    {c : Char} (hc : c ∈ Token.marks) (htext : text.getLast? = some c)
    (hopen : ∀ run, text = '"' :: run → ¬ stringContent.Matches run) (hw : w <+: text ++ more)
    (h : r.pattern.Matches w) : w <+: text := by
  rcases Grammar.prefix_or_eq_append_cons hw with hpre | ⟨d, back, rfl⟩
  · exact hpre
  · -- the match covers the mark and goes on behind it
    exfalso
    rcases rules_avoid_marks r hr with hkind | hkind | havoids
    · -- a mark is a match on its own
      obtain ⟨m, -, hm⟩ := exists_mark_of_matches hr hkind h
      obtain ⟨front, rfl⟩ := List.getLast?_eq_some_iff.mp htext
      have hlength := congrArg List.length hm
      simp only [List.length_append, List.length_cons, List.length_nil] at hlength
      omega
    · obtain ⟨run, hrun, hcontent⟩ :=
        exists_run_of_prefix hr hkind hc htext (List.prefix_append _ _) h
      exact hopen run hrun hcontent
    · have hmem : c ∈ text ++ d :: back := List.mem_append_left _ (List.mem_of_getLast? htext)
      have hallows := Pattern.allows_of_mem h hmem
      rw [forall_mem_of_all havoids c hc] at hallows
      cases hallows

/-! ## Lexemes before the mark -/

/-- A lexeme that leaves a text with a final mark is the next one with more text behind. -/
theorem next_append {l : Lexeme Kind} {rest more : List Char} (h : grammar.Next (l.text ++ rest) l)
    {c : Char} (hc : c ∈ Token.marks) (hlast : rest.getLast? = some c) :
    grammar.Next (l.text ++ rest ++ more) l := by
  have htext : (l.text ++ rest).getLast? = some c := by
    rw [List.getLast?_append, hlast]
    rfl
  -- an open string would be a longer match than the lexeme
  have hopen : ∀ run, l.text ++ rest = '"' :: run → ¬ stringContent.Matches run := by
    intro run hrun hcontent
    obtain ⟨r, hr, hmatches⟩ := matches_openString hcontent
    have hlength := h.length_le hr (List.prefix_refl _) (hrun ▸ hmatches)
    obtain ⟨front, rfl⟩ := List.getLast?_eq_some_iff.mp hlast
    simp only [List.length_append, List.length_singleton] at hlength
    omega
  refine h.append (fun r hr w hw hmatches => prefix_of_matches hr hc htext hopen hw hmatches) ?_
  exact fun found behind kind _ _ _ => ⟨Nat.zero_le _, rfl⟩

/-- A lexeme of one of the kinds of marks is a mark. -/
theorem exists_mark_of_next {text : List Char} {mark : Lexeme Kind} (h : grammar.Next text mark)
    (hmark : mark.kind = some .colon ∨ mark.kind = some .punctuation) :
    ∃ c ∈ Token.marks, mark = ⟨some (if c = ':' then .colon else .punctuation), [c]⟩ := by
  obtain ⟨c, hc, behind, rfl⟩ : ∃ c ∈ Token.marks, ∃ behind, text = [c] ++ behind := by
    cases h with
    | unknown => rcases hmark with hmark | hmark <;> cases hmark
    | @longest found behind kind hsplit _ hselected _ =>
      obtain ⟨r, hr, rfl, hmatches⟩ := Grammar.exists_rule_of_selected hselected
      have hkind : r.kind = .colon ∨ r.kind = .punctuation :=
        hmark.imp Option.some.inj Option.some.inj
      obtain ⟨c, hc, rfl⟩ := exists_mark_of_matches hr hkind hmatches
      exact ⟨c, hc, behind, hsplit⟩
  exact ⟨c, hc, h.unique (next_mark hc behind)⟩

/-- Behind a mark that is a lexeme of its own the text is read afresh. -/
theorem lexemes_append_of_mark {text more : List Char} {before : List (Lexeme Kind)}
    {mark : Lexeme Kind} (h : grammar.lexemes text = before ++ [mark])
    (hmark : mark.kind = some .colon ∨ mark.kind = some .punctuation) :
    grammar.lexemes (text ++ more) = grammar.lexemes text ++ grammar.lexemes more := by
  obtain ⟨c, hc, rfl⟩ := exists_mark_of_next (Grammar.next_of_lexemes_eq h) hmark
  refine Grammar.lexemes_append_of_last h (next_mark hc more) fun l rest hnext hsuffix => ?_
  obtain ⟨front, rfl⟩ := hsuffix
  exact next_append hnext hc List.getLast?_concat

/-! ## Restarting behind the mark -/

/-- Whether a colon follows is known at the mark. -/
theorem colonFollows_append {mark : Lexeme Kind} (hmark : mark.kind ≠ some .blank)
    (before back : List (Lexeme Kind)) :
    colonFollows (before ++ mark :: back) = colonFollows (before ++ [mark]) := by
  induction before with
  | nil =>
    rw [List.nil_append, List.nil_append, colonFollows, colonFollows]
    split
    · rename_i hblank
      exact absurd hblank hmark
    · rfl
    · rfl
  | cons l rest ih => rw [List.cons_append, List.cons_append, colonFollows, colonFollows, ih]

/-- Lexemes up to a mark are classified without those behind it, and these without them. -/
theorem classify_append {mark : Lexeme Kind}
    (hmark : mark.kind = some .colon ∨ mark.kind = some .punctuation)
    (before back : List (Lexeme Kind)) :
    classify (before ++ mark :: back) = classify (before ++ [mark]) ++ classify back := by
  have hblank : mark.kind ≠ some .blank := by
    rcases hmark with hmark | hmark <;> simp [hmark]
  induction before with
  | nil =>
    -- the category of a mark does not depend on what follows
    rcases hmark with hmark | hmark <;> simp only [List.nil_append, classify, hmark] <;> rfl
  | cons l rest ih =>
    rw [List.cons_append, List.cons_append, classify, classify, colonFollows_append hblank, ih]
    rfl

/-- The last fragment has the category of the last lexeme, with nothing behind it. -/
theorem getLast?_classify (lexemes : List (Lexeme Kind)) :
    (classify lexemes).getLast?.map (·.category) =
      lexemes.getLast?.map fun l => category false l.kind := by
  induction lexemes with
  | nil => rfl
  | cons l rest ih =>
    cases rest with
    | nil => rfl
    | cons m rest =>
      rw [List.getLast?_cons_cons, ← ih, classify, classify, List.getLast?_cons_cons]

/-- Only marks are of the category of punctuation. -/
theorem category_eq_punctuation_iff {namesMember : Bool} {kind : Option Kind} :
    category namesMember kind = .ofKey "Punctuation" ↔
      kind = some .colon ∨ kind = some .punctuation := by
  rcases kind with _ | kind
  · cases namesMember <;> decide
  · cases kind <;> cases namesMember <;> decide

end JsonText

/-- If the last fragment of a text is punctuation, then what follows the text has the fragments that
    it has on its own, and those of the text stay as they are: no string goes on, and what was the
    name of a member still is. -/
theorem fragments_append_of_mark (a b : String)
    (h : (json.fragments a).getLast?.map (·.category) = some (.ofKey "Punctuation")) :
    json.fragments (a ++ b) = json.fragments a ++ json.fragments b := by
  have hlast : (JsonText.grammar.lexemes a.toList).getLast?.map
      (fun l => JsonText.category false l.kind) = some (.ofKey "Punctuation") :=
    (JsonText.getLast?_classify _).symm.trans h
  -- only marks are punctuation
  obtain ⟨mark, hmark, hcategory⟩ := Option.map_eq_some_iff.mp hlast
  obtain ⟨before, hbefore⟩ := List.getLast?_eq_some_iff.mp hmark
  have hkind := JsonText.category_eq_punctuation_iff.mp hcategory
  show JsonText.classify (JsonText.grammar.lexemes (a ++ b).toList) = _
  rw [String.toList_append, JsonText.lexemes_append_of_mark hbefore hkind, hbefore,
    List.append_assoc, List.singleton_append, JsonText.classify_append hkind, ← hbefore]
  rfl

/-- A string that breaks off does not go on behind the colon, and what is before the colon stays the
    name of a member. -/
theorem fragments_append_of_mark_of_name :
    (json.fragments "\"a,\\\n\"b\" :").getLast?.map (·.category) = some (.ofKey "Punctuation") ∧
      json.fragments ("\"a,\\\n\"b\" :" ++ "\"c\"") =
        json.fragments "\"a,\\\n\"b\" :" ++ json.fragments "\"c\"" ∧
      ⟨.ofKey "Name.Tag", "\"b\""⟩ ∈ json.fragments ("\"a,\\\n\"b\" :" ++ "\"c\"") := by
  have hlast : (json.fragments "\"a,\\\n\"b\" :").getLast?.map (·.category) =
      some (.ofKey "Punctuation") := by
    decide +kernel
  have happend := fragments_append_of_mark _ "\"c\"" hlast
  refine ⟨hlast, happend, ?_⟩
  rw [happend]
  decide +kernel

end Tinct.Lexer
