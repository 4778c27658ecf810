import Tinct.Proofs.PreparedTexts

/-!
# What a preparation does to a text

The settings of a preparation are independent of each other, but its steps are not: outer line feeds
are dropped after line endings are unified, tabs are expanded only then, and the line feed at the
end may come back at last.  This file says what the result is without going through these steps.
Up to outer line feeds it is the source text with its line endings and tabs written anew; and its
outer line feeds are settled by what is asked for.

## Key results

- `rewritten_eq`: unified line endings and expanded tabs, by one pass and by the parts between tabs
- `trimNewlines_eq_iff`: the core of a text, which is what is left without outer line feeds
- `isPrepared_applyChars`, `IsPrepared.unique`: the prepared form is the only text of its kind
- `apply_spec`: and its own prepared form
-/

namespace Tinct.Preparation

variable {p : Preparation} {source text core : List Char}

/-! ## Line endings and tabs -/

/-- A source text with every line ending written as a line feed, found in one pass, and with the
    parts between its tabs joined by spaces, each of the two if it is asked for. -/
def rewritten (p : Preparation) (source : List Char) : List Char :=
  let text := if p.normalizeLineEndings then scanLineEndings false source else source
  if p.tabSize = 0 then text else (List.replicate p.tabSize ' ').intercalate (text.splitOn '\t')

/-- Tabs are replaced by putting spaces between the pieces of the text. -/
theorem expandTabs_eq_intercalate (size : Nat) (text : List Char) :
    expandTabs size text = (List.replicate size ' ').intercalate (text.splitOn '\t') := by
  induction text with
  | nil => simp [expandTabs]
  | cons c rest ih =>
    obtain ⟨part, parts, hparts⟩ := List.exists_cons_of_ne_nil (List.splitOn_ne_nil '\t' rest)
    rw [expandTabs_cons, ih, List.splitOn_cons_eq_if_modifyHead, hparts]
    by_cases hc : c = '\t'
    · -- a tab opens the next part
      simp [hc]
    · rw [if_neg hc, if_neg (by simpa using hc), List.modifyHead_cons]
      cases parts <;> simp

/-- The steps for line endings and tabs, one after the other. -/
theorem rewritten_eq (p : Preparation) (source : List Char) :
    p.rewritten source = p.expand (p.unify source) := by
  rw [rewritten, expand, unify, expandTabs_eq_intercalate, unifyLineEndings_eq_scan]

/-! ## The core of a text -/

/-- What is left of a text without the line feeds at its two ends. -/
structure IsCore (text core : List Char) : Prop where
  trimmed : IsTrimmed core
  outer : ∃ before after : Nat,
    text = List.replicate before '\n' ++ core ++ List.replicate after '\n'

theorem trimNewlines_lineFeed_cons (text : List Char) :
    trimNewlines ('\n' :: text) = trimNewlines text := by
  rw [trimNewlines, List.dropWhile_cons_of_pos (by simp), ← trimNewlines]

theorem trimNewlines_append_lineFeed (text : List Char) :
    trimNewlines (text ++ ['\n']) = trimNewlines text := by
  rw [trimNewlines, trimNewlines, List.dropWhile_append]
  split
  · rename_i hempty
    rw [List.isEmpty_iff] at hempty
    simp [hempty]
  · rw [List.reverse_concat, List.dropWhile_cons_of_pos (by simp)]

/-- A run of line feeds makes no difference at the front. -/
theorem trimNewlines_replicate_append (n : Nat) (text : List Char) :
    trimNewlines (List.replicate n '\n' ++ text) = trimNewlines text := by
  induction n with
  | zero => rfl
  | succ n ih => rw [List.replicate_succ, List.cons_append, trimNewlines_lineFeed_cons, ih]

/-- A run of line feeds makes no difference at the end. -/
theorem trimNewlines_append_replicate (n : Nat) (text : List Char) :
    trimNewlines (text ++ List.replicate n '\n') = trimNewlines text := by
  induction n with
  | zero => rw [List.replicate_zero, List.append_nil]
  | succ n ih => rw [List.replicate_succ', ← List.append_assoc, trimNewlines_append_lineFeed, ih]

/-- Dropping outer line feeds leaves the core, whatever the number of line feeds. -/
theorem IsCore.trimNewlines_eq (h : IsCore text core) : trimNewlines text = core := by
  obtain ⟨before, after, rfl⟩ := h.outer
  rw [trimNewlines_append_replicate, trimNewlines_replicate_append,
    trimNewlines_of_isTrimmed h.trimmed]

/-- What is left of a text once it is trimmed is its core. -/
theorem isCore_trimNewlines (text : List Char) : IsCore text (trimNewlines text) := by
  have hrun : ∀ l : List Char, (∀ c ∈ l, decide (c = '\n') = true) →
      l = List.replicate l.length '\n' := fun l h =>
    List.eq_replicate_of_mem fun c hc => of_decide_eq_true (h c hc)
  refine ⟨isTrimmed_trimNewlines text, (text.takeWhile (· = '\n')).length,
    ((text.dropWhile (· = '\n')).rtakeWhile (· = '\n')).length, ?_⟩
  rw [← hrun _ fun c => List.mem_takeWhile_imp, ← hrun _ fun c => List.mem_rtakeWhile_imp,
    List.append_assoc]
  have hback : trimNewlines text ++ (text.dropWhile (· = '\n')).rtakeWhile (· = '\n') =
      text.dropWhile (· = '\n') := List.rdropWhile_append_rtakeWhile
  rw [hback, List.takeWhile_append_dropWhile]

/-- The core of a text is what dropping outer line feeds leaves. -/
theorem trimNewlines_eq_iff : trimNewlines text = core ↔ IsCore text core :=
  ⟨fun h => h ▸ isCore_trimNewlines text, IsCore.trimNewlines_eq⟩

theorem IsCore.unique {other : List Char} (h : IsCore text core) (hother : IsCore text other) :
    core = other :=
  h.trimNewlines_eq.symm.trans hother.trimNewlines_eq

theorem IsTrimmed.isCore (h : IsTrimmed text) : IsCore text text :=
  trimNewlines_eq_iff.mp (trimNewlines_of_isTrimmed h)

/-- Another line feed at the end leaves the core. -/
theorem IsCore.append_lineFeed (h : IsCore text core) : IsCore (text ++ ['\n']) core :=
  trimNewlines_eq_iff.mp ((trimNewlines_append_lineFeed text).trans h.trimNewlines_eq)

/-- So does one that is added only if there is none. -/
theorem IsCore.endLine (h : IsCore text core) : IsCore (endLine text) core := by
  rw [Preparation.endLine]
  split
  · exact h
  · exact h.append_lineFeed

/-- Outer line feeds stay outer ones when tabs are expanded, and the core is expanded. -/
theorem IsCore.expand (h : IsCore text core) : IsCore (p.expand text) (p.expand core) := by
  refine ⟨isTrimmed_expand h.trimmed, ?_⟩
  obtain ⟨before, after, rfl⟩ := h.outer
  have hrun : ∀ n, expandTabs p.tabSize (List.replicate n '\n') = List.replicate n '\n' :=
    fun n => expandTabs_of_not_mem _ (by simp [List.mem_replicate])
  refine ⟨before, after, ?_⟩
  rw [Preparation.expand, Preparation.expand]
  split
  · rfl
  · rw [expandTabs, List.flatMap_append, List.flatMap_append, ← expandTabs, ← expandTabs,
      ← expandTabs, hrun, hrun]

/-! ## Prepared forms -/

/-- What a preparation promises of the prepared form of a source text. -/
structure IsPrepared (p : Preparation) (source text : List Char) : Prop where
  no_return : p.normalizeLineEndings = true → '\r' ∉ text
  no_tab : p.tabSize ≠ 0 → '\t' ∉ text
  ends : p.ensureTrailingNewline = true → text.getLast? = some '\n'
  /-- But for the line feed that is added at the end, there are no outer line feeds. -/
  trimmed : p.stripNewlines = true →
    IsTrimmed (if p.ensureTrailingNewline then text.dropLast else text)
  /-- Nothing is removed, and at most a missing line feed is added. -/
  kept : p.stripNewlines = false →
    text = p.rewritten source ++
      if p.ensureTrailingNewline ∧ (p.rewritten source).getLast? ≠ some '\n' then ['\n'] else []
  /-- Up to outer line feeds the text is the rewritten source text. -/
  core : ∃ core, IsCore (p.rewritten source) core ∧ IsCore text core

/-- Ending the last line adds a line feed at most. -/
theorem mem_of_mem_endLine {c : Char} (h : c ∈ endLine text) : c ∈ text ∨ c = '\n' := by
  rw [endLine] at h
  split at h
  · exact .inl h
  · exact (List.mem_append.mp h).imp_right List.mem_singleton.mp

/-- A text whose last line is ended ends with a line feed. -/
theorem getLast?_endLine (text : List Char) : (endLine text).getLast? = some '\n' := by
  rw [endLine]
  split
  · assumption
  · exact List.getLast?_concat

/-- A prepared text has the characters of the clean one, and maybe a line feed. -/
theorem mem_of_mem_applyChars {c : Char} (h : c ∈ p.applyChars source) :
    c ∈ p.clean source ∨ c = '\n' := by
  rw [applyChars_eq] at h
  split at h
  · exact mem_of_mem_endLine h
  · exact .inl h

/-- What a preparation makes of a text is prepared. -/
theorem isPrepared_applyChars (p : Preparation) (source : List Char) :
    p.IsPrepared source (p.applyChars source) where
  no_return hp hmem := by
    -- the line feed that may be added is neither a carriage return nor a tab
    rcases mem_of_mem_applyChars hmem with hclean | hfeed
    · exact (p.isClean_clean source).no_return hp hclean
    · exact absurd hfeed (by decide)
  no_tab hp hmem := by
    rcases mem_of_mem_applyChars hmem with hclean | hfeed
    · exact (p.isClean_clean source).no_tab hp hclean
    · exact absurd hfeed (by decide)
  ends hp := by
    rw [applyChars_eq, if_pos hp]
    exact getLast?_endLine _
  trimmed hp := by
    -- without the line feed that was added the text is trimmed
    have htrimmed := (p.isClean_clean source).trimmed hp
    rw [applyChars_eq]
    split
    · rw [endLine, if_neg htrimmed.getLast?_ne, List.dropLast_concat]
      exact htrimmed
    · exact htrimmed
  kept hp := by
    -- nothing is trimmed, so the clean text is the rewritten one
    have hclean : p.clean source = p.rewritten source := by
      rw [clean, trim, hp, if_neg (by decide), rewritten_eq]
    rw [applyChars_eq, hclean, endLine]
    by_cases hlast : (p.rewritten source).getLast? = some '\n'
    · simp [hlast]
    · by_cases hends : p.ensureTrailingNewline = true <;> simp [hlast, hends]
  core := by
    -- tabs are expanded last, also inside the core; outer line feeds are still the outer ones then
    have hcore := isCore_trimNewlines (p.unify source)
    have hclean : IsCore (p.clean source) (p.expand (trimNewlines (p.unify source))) := by
      rw [clean, trim]
      split
      · exact hcore.trimmed.isCore.expand
      · exact hcore.expand
    refine ⟨_, rewritten_eq p source ▸ hcore.expand, ?_⟩
    rw [applyChars_eq]
    split
    · exact hclean.endLine
    · exact hclean

namespace IsPrepared

variable {other : List Char}

/-- Where outer line feeds are dropped, a prepared form is the core of the rewritten source text
    with the line feed that is asked for. -/
theorem isCore (h : p.IsPrepared source text) (hp : p.stripNewlines = true) :
    IsCore (p.rewritten source) (if p.ensureTrailingNewline then text.dropLast else text) := by
  obtain ⟨core, hsource, htext⟩ := h.core
  have htrimmed := (h.trimmed hp).isCore
  suffices hsame : core = if p.ensureTrailingNewline then text.dropLast else text by
    rw [← hsame]
    exact hsource
  by_cases hends : p.ensureTrailingNewline = true
  · -- the line feed that was added is an outer one, so the text has the same core with it
    rw [if_pos hends] at htrimmed ⊢
    have hlast := htrimmed.append_lineFeed
    rw [List.dropLast_append_getLast? _ (h.ends hends)] at hlast
    exact htext.unique hlast
  · rw [if_neg hends] at htrimmed ⊢
    exact htext.unique htrimmed

/-- A source text has one prepared form. -/
theorem unique (h : p.IsPrepared source text) (hother : p.IsPrepared source other) :
    text = other := by
  -- without outer line feeds it is the core that settles the text, with them every character does
  by_cases hp : p.stripNewlines = true
  · have hcore := (h.isCore hp).unique (hother.isCore hp)
    by_cases hends : p.ensureTrailingNewline = true
    · rw [if_pos hends, if_pos hends] at hcore
      rw [← List.dropLast_append_getLast? _ (h.ends hends), hcore,
        List.dropLast_append_getLast? _ (hother.ends hends)]
    · rw [if_neg hends, if_neg hends] at hcore
      exact hcore
  · rw [Bool.not_eq_true] at hp
    rw [h.kept hp, hother.kept hp]

/-- There is nothing to rewrite in a prepared form, so it is prepared already. -/
theorem self (h : p.IsPrepared source text) : p.IsPrepared text text := by
  have hrewritten : p.rewritten text = text := by
    rw [rewritten_eq, unify_of_not_mem h.no_return, expand_of_not_mem h.no_tab]
  refine ⟨h.no_return, h.no_tab, h.ends, h.trimmed, fun hp => ?_, ?_⟩
  · have hlast : ¬ (p.ensureTrailingNewline = true ∧ text.getLast? ≠ some '\n') :=
      fun hadded => hadded.2 (h.ends hadded.1)
    rw [hrewritten, if_neg hlast, List.append_nil]
  · obtain ⟨core, -, htext⟩ := h.core
    exact ⟨core, hrewritten.symm ▸ htext, htext⟩

end IsPrepared

/-- The prepared form of a source text keeps what the settings promise, it is the only text that
    does so, and preparing it again changes nothing. -/
theorem apply_spec (p : Preparation) (source : String) :
    p.IsPrepared source.toList (p.apply source).toList ∧
      (∀ text : String, p.IsPrepared source.toList text.toList → text = p.apply source) ∧
      p.apply (p.apply source) = p.apply source := by
  have hprepared : p.IsPrepared source.toList (p.apply source).toList := by
    rw [apply, String.toList_ofList]
    exact p.isPrepared_applyChars source.toList
  refine ⟨hprepared, fun text htext => String.toList_inj.mp (htext.unique hprepared), ?_⟩
  have hagain := (p.isPrepared_applyChars (p.apply source).toList).unique hprepared.self
  rw [apply, hagain, String.ofList_toList]

/-- A carriage return that is not unified is no line feed, so the one behind it stays. -/
theorem apply_spec_of_return :
    let p : Preparation := { normalizeLineEndings := false, tabSize := 2 }
    let source := "\n\r\n\tx\n\n"
    let text := "\r\n  x\n"
    p.IsPrepared source.toList text.toList ∧ text = p.apply source ∧ p.apply text = text := by
  intro p source text
  have hcore : IsTrimmed "\r\n  x".toList := ⟨by decide, by decide⟩
  -- the carriage return hides the second line feed, which is then no outer one
  have hprepared : p.IsPrepared source.toList text.toList :=
    { no_return := by decide
      no_tab := by decide
      ends := by decide
      trimmed := fun _ => ⟨by decide, by decide⟩
      kept := by decide
      core := ⟨_, ⟨hcore, 1, 2, by decide⟩, hcore, 0, 1, by decide⟩ }
  obtain ⟨-, hunique, hagain⟩ := apply_spec p source
  have happly : text = p.apply source := hunique text hprepared
  rw [← happly] at hagain
  exact ⟨hprepared, happly, hagain⟩

/-- A source text of line feeds has an empty core, and gets one line feed back. -/
example : Preparation.apply {} "\n\r\n" = "\n" := by decide

end Tinct.Preparation
