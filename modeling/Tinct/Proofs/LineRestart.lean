import Tinct.Lexer.Python
import Tinct.Proofs.LosslessLexers

/-!
# Python is read line by line

A line feed that is a lexeme of its own ends everything before it: the rules know no line feed but
at the end of a match, a string that ends before the line feed has been closed or ends with its
line, and the line feed cancels a definition that still waits for its name.  So what follows is read
as if it stood alone.

## Key results

- `eq_nil_of_matches_lineFeed`: nothing follows a line feed in a match
- `extend_append`: a string literal that ends within a text ends there with more text behind, too
- `next_append`: a lexeme before the line feed stays as it is
- `fragments_append_of_lineFeed`: the fragments of a text behind such a line feed
-/

namespace Tinct.Lexer.Python

/-! ## Line feeds in matches -/

/-- Only two rules know line feeds at all. -/
private theorem rules_avoid_lineFeed :
    ∀ r ∈ rules, r.kind = .newline ∨ r.kind = .continuation ∨ r.pattern.allows '\n' = false := by
  decide

/-- The rules for line ends describe one text each. -/
private theorem pattern_of_lineFeed {r : Rule Kind} (hr : r ∈ rules)
    (hkind : r.kind = .newline ∨ r.kind = .continuation) :
    r.pattern = .text "\n" ∨ r.pattern = .text "\\\n" := by
  have hpatterns : ∀ r ∈ rules, r.kind = .newline ∨ r.kind = .continuation →
      r.pattern = .text "\n" ∨ r.pattern = .text "\\\n" := by
    simp [rules]
  exact hpatterns r hr hkind

/-- A character that comes last, and nowhere else, has nothing behind it. -/
private theorem eq_nil_of_append_cons_eq_concat {c : Char} {front back w : List Char}
    (hw : c ∉ w) (h : front ++ c :: back = w ++ [c]) : back = [] := by
  rcases List.eq_nil_or_concat back with rfl | ⟨middle, last, rfl⟩
  · rfl
  · rw [List.concat_eq_append, ← List.cons_append, ← List.append_assoc] at h
    have hfront : front ++ c :: middle = w := (List.append_inj' h rfl).1
    exact absurd (hfront ▸ List.mem_append_right front List.mem_cons_self) hw

/-- In what a rule describes, a line feed is the last character. -/
theorem eq_nil_of_matches_lineFeed {r : Rule Kind} (hr : r ∈ rules) {front back : List Char}
    (h : r.pattern.Matches (front ++ '\n' :: back)) : back = [] := by
  have hline : r.kind = .newline ∨ r.kind = .continuation → back = [] := by
    intro hkind
    rcases pattern_of_lineFeed hr hkind with hpattern | hpattern
    · rw [hpattern, Pattern.matches_text_iff] at h
      exact eq_nil_of_append_cons_eq_concat (w := []) List.not_mem_nil h
    · rw [hpattern, Pattern.matches_text_iff] at h
      exact eq_nil_of_append_cons_eq_concat (w := ['\\']) (by decide) h
  -- all other rules describe no line feed at all
  rcases rules_avoid_lineFeed r hr with hkind | hkind | hallows
  · exact hline (.inl hkind)
  · exact hline (.inr hkind)
  · have hmem := Pattern.allows_of_mem h (List.mem_append_right front List.mem_cons_self)
    rw [hallows] at hmem
    cases hmem

/-- So what a rule describes at the start of a text that ends with a line feed does not reach
    beyond it. -/
theorem prefix_of_matches {r : Rule Kind} (hr : r ∈ rules) {text more w : List Char}
    (htext : text.getLast? = some '\n') (hw : w <+: text ++ more) (h : r.pattern.Matches w) :
    w <+: text := by
  rcases Grammar.prefix_or_eq_append_cons hw with hpre | ⟨c, back, rfl⟩
  · exact hpre
  · -- the match covers the line feed, so it ends there
    obtain ⟨front, rfl⟩ := List.getLast?_eq_some_iff.mp htext
    rw [List.append_assoc, List.singleton_append] at h
    cases eq_nil_of_matches_lineFeed hr h

/-! ## String literals -/

/-- A character other than a backslash is a step of a literal in three quotes. -/
private theorem docLength_cons {quote c : Char} (hc : c ≠ '\\') (rest : List Char) :
    docLength quote (c :: rest) =
      if [quote, quote, quote].isPrefixOf (c :: rest) then 3 else docLength quote rest + 1 := by
  rw [docLength]
  intro _ _ heq
  exact absurd heq hc

/-- A character other than a backslash is a step of a literal on one line. -/
private theorem lineLength_cons {quote c : Char} (hc : c ≠ '\\') (rest : List Char) :
    lineLength quote (c :: rest) =
      if c = '\n' then 0 else if c = quote then 1 else lineLength quote rest + 1 := by
  rw [lineLength]
  intro _ _ heq
  exact absurd heq hc

/-- A backslash that hides no character is the last one. -/
theorem ne_backslash_or_last {c : Char} {rest : List Char}
    (hescape : ∀ d tail, c = '\\' → rest = d :: tail → False) :
    c ≠ '\\' ∨ c = '\\' ∧ rest = [] := by
  by_cases hc : c = '\\'
  · cases rest with
    | nil => exact .inr ⟨hc, rfl⟩
    | cons d tail => exact (hescape d tail hc rfl).elim
  · exact .inl hc

private theorem ne_backslash {c : Char} {rest : List Char} (hne : rest ≠ [])
    (hescape : ∀ d tail, c = '\\' → rest = d :: tail → False) : c ≠ '\\' :=
  (ne_backslash_or_last hescape).resolve_right fun h => hne h.2

/-- A literal on one line that ends within a text ends there with more text behind. -/
theorem lineLength_append {quote : Char} {behind more : List Char}
    (h : lineLength quote behind < behind.length) :
    lineLength quote (behind ++ more) = lineLength quote behind := by
  fun_induction lineLength quote behind with
  | case1 => cases h
  -- a pair with a backslash is stepped over
  | case2 c rest ih =>
    simp only [List.length_cons] at h
    rw [List.cons_append, List.cons_append, lineLength, ih (by omega)]
  | case3 rest =>
    rw [List.cons_append, lineLength_cons (by decide), if_pos rfl]
  | case4 rest hescape hline =>
    have hne : rest ≠ [] := by
      intro hrest
      simp [hrest] at h
    rw [List.cons_append, lineLength_cons (ne_backslash hne hescape), if_neg hline, if_pos rfl]
  | case5 c rest hescape hline hquote ih =>
    -- what ends the literal is still further on, within the text
    have hlt : lineLength quote rest < rest.length := Nat.lt_of_succ_lt_succ h
    have hne : rest ≠ [] := List.ne_nil_of_length_pos (Nat.zero_lt_of_lt hlt)
    rw [List.cons_append, lineLength_cons (ne_backslash hne hescape), if_neg hline,
      if_neg hquote, ih hlt]

/-- A literal in three quotes has at least one character more. -/
private theorem docLength_pos {quote : Char} {behind : List Char} (hne : behind ≠ []) :
    0 < docLength quote behind := by
  fun_cases docLength quote behind with
  | case1 => exact absurd rfl hne
  | _ => simp

/-- A literal in three quotes that ends within a text ends there with more text behind. -/
theorem docLength_append {quote : Char} {behind more : List Char}
    (h : docLength quote behind < behind.length) :
    docLength quote (behind ++ more) = docLength quote behind := by
  fun_induction docLength quote behind with
  | case1 => cases h
  | case2 c rest ih =>
    simp only [List.length_cons] at h
    rw [List.cons_append, List.cons_append, docLength, ih (by omega)]
  | case3 c rest hescape hclosed =>
    have hne : rest ≠ [] := by
      intro hrest
      simp [hrest] at h
    -- three quotes that end the literal are there with more text behind them, too
    have hstill : [quote, quote, quote].isPrefixOf (c :: (rest ++ more)) = true := by
      rw [List.isPrefixOf_iff_prefix] at hclosed ⊢
      exact hclosed.trans (List.prefix_append (c :: rest) more)
    rw [List.cons_append, docLength_cons (ne_backslash hne hescape), if_pos hstill]
  | case4 c rest hescape hopen ih =>
    have hlt : docLength quote rest < rest.length := Nat.lt_of_succ_lt_succ h
    have hne : rest ≠ [] := List.ne_nil_of_length_pos (Nat.zero_lt_of_lt hlt)
    -- three quotes that need what is behind would not end within the text
    have hstill : ¬ [quote, quote, quote].isPrefixOf (c :: (rest ++ more)) = true := by
      intro hclosed
      rw [List.isPrefixOf_iff_prefix] at hclosed hopen
      have hpos : 0 < docLength quote rest := docLength_pos hne
      have hlen : [quote, quote, quote].length ≤ (c :: rest).length := by
        simp only [List.length_cons, List.length_nil]
        omega
      have hbeginning := List.prefix_append (c :: rest) more
      exact hopen (List.prefix_of_prefix_length_le hclosed hbeginning hlen)
    rw [List.cons_append, docLength_cons (ne_backslash hne hescape), if_neg hstill, ih hlt]

/-- Two more quotes open a literal in three quotes. -/
theorem extent_of_doc (form : StringForm) (quote : Char) (body : List Char) :
    form.extent quote ([quote, quote] ++ body) = (.doc, docLength quote body + 2) := by
  have hbody : [quote, quote].isPrefixOf? ([quote, quote] ++ body) = some body :=
    List.isPrefixOf?_eq_some_iff_append_eq.mpr rfl
  rw [StringForm.extent, hbody]

/-- Without them the literal is on one line. -/
theorem extent_of_line {form : StringForm} {quote : Char} {behind : List Char}
    (h : ¬ [quote, quote] <+: behind) :
    form.extent quote behind = (form, lineLength quote behind) := by
  have hnone : [quote, quote].isPrefixOf? behind = none := by
    rw [← Option.not_isSome_iff_eq_none, List.isSome_isPrefixOf?_eq_isPrefixOf,
      List.isPrefixOf_iff_prefix]
    exact h
  rw [StringForm.extent, hnone]

/-- A string literal that ends before the final line feed of a text ends there with more text
    behind, and has the same form. -/
theorem extent_append {form : StringForm} {quote : Char} {behind more : List Char}
    (hquote : quote ≠ '\n') (hlast : behind.getLast? = some '\n')
    (h : (form.extent quote behind).2 < behind.length) :
    form.extent quote (behind ++ more) = form.extent quote behind := by
  by_cases hdoc : [quote, quote] <+: behind
  · obtain ⟨body, rfl⟩ := hdoc
    rw [extent_of_doc] at h
    have hlt : docLength quote body < body.length := by
      simp only [List.length_append, List.length_cons, List.length_nil] at h
      omega
    -- in three quotes, as far as the closing ones
    rw [List.append_assoc, extent_of_doc, extent_of_doc, docLength_append hlt]
  · have hstill : ¬ [quote, quote] <+: behind ++ more := by
      intro hpre
      obtain ⟨front, rfl⟩ := List.getLast?_eq_some_iff.mp hlast
      cases front with
      | nil => exact hquote (List.cons_prefix_cons.mp hpre).1
      | cons c front =>
        -- the two quotes stand within the text
        have hlen : [quote, quote].length ≤ (c :: front ++ ['\n']).length := by simp
        exact hdoc (List.prefix_of_prefix_length_le hpre (List.prefix_append _ more) hlen)
    rw [extent_of_line hdoc] at h
    rw [extent_of_line hdoc, extent_of_line hstill, lineLength_append h]

theorem extend_append {kind : Kind} {found behind more : List Char}
    (hfound : isString kind = true → '\n' ∉ found) (hlast : behind.getLast? = some '\n')
    (h : (extend kind found behind).2 < behind.length) :
    extend kind found (behind ++ more) = extend kind found behind := by
  cases kind with
  | string form =>
    -- the quote at the end of the opening is no line feed
    have hquote : found.getLast?.getD '"' ≠ '\n' := by
      cases hgetLast : found.getLast? with
      | none => decide
      | some c =>
        rintro rfl
        exact hfound rfl (List.mem_of_getLast? hgetLast)
    simp only [extend] at h ⊢
    rw [extent_append hquote hlast h]
  | _ => rfl

/-! ## Lexemes before the line feed -/

/-- The match for a string literal holds no line feed. -/
private theorem lineFeed_not_mem_of_isString {found : List Char} {kind : Kind}
    (hselected : Grammar.selected rules found = some kind) (hstring : isString kind = true) :
    '\n' ∉ found := by
  obtain ⟨r, hr, rfl, hmatches⟩ := Grammar.exists_rule_of_selected hselected
  intro hmem
  have hallows := Pattern.allows_of_mem hmatches hmem
  rcases rules_avoid_lineFeed r hr with hkind | hkind | hnone
  · rw [hkind] at hstring
    cases hstring
  · rw [hkind] at hstring
    cases hstring
  · rw [hallows] at hnone
    cases hnone

/-- A lexeme that leaves a text with a final line feed is the next one with more text behind. -/
theorem next_append {l : Lexeme Kind} {rest more : List Char}
    (h : grammar.Next (l.text ++ rest) l) (hlast : rest.getLast? = some '\n') :
    grammar.Next (l.text ++ rest ++ more) l := by
  have htextLast : (l.text ++ rest).getLast? = some '\n' := by
    rw [List.getLast?_append, hlast]
    rfl
  refine h.append (fun r hr w hw hmatches => prefix_of_matches hr htextLast hw hmatches) ?_
  intro found behind kind hsplit hselected htext
  -- the lexeme ends before the end of the text
  have hrest : behind.take (grammar.extend kind found behind).2 ++ rest = behind := by
    rw [htext, List.append_assoc] at hsplit
    exact List.append_cancel_left hsplit
  have hrest_pos : 0 < rest.length := by
    obtain ⟨front, rfl⟩ := List.getLast?_eq_some_iff.mp hlast
    simp
  have hlt : (grammar.extend kind found behind).2 < behind.length := by
    have hlength := congrArg List.length hrest
    rw [List.length_append, List.length_take] at hlength
    omega
  have hbehind : behind.getLast? = some '\n' := by
    rw [← hrest, List.getLast?_append, hlast]
    rfl
  exact ⟨Nat.le_of_lt hlt,
    extend_append (lineFeed_not_mem_of_isString hselected) hbehind hlt⟩

/-- The line feed itself is a lexeme, whatever follows. -/
theorem next_lineFeed (more : List Char) :
    grammar.Next ('\n' :: more) ⟨some .newline, ['\n']⟩ := by
  have hselected : Grammar.selected grammar.rules ['\n'] = some .newline := by decide
  -- no rule goes on behind a line feed
  have hmaximal : ∀ r ∈ grammar.rules, ∀ w, w <+: '\n' :: more → ['\n'].length < w.length →
      ¬ r.pattern.Matches w := by
    intro r hr w hw hlen hmatches
    cases w with
    | nil => cases hlen
    | cons c tail =>
      obtain ⟨rfl, -⟩ := List.cons_prefix_cons.mp hw
      have hnil : tail = [] :=
        eq_nil_of_matches_lineFeed hr (show r.pattern.Matches ([] ++ '\n' :: tail) from hmatches)
      rw [hnil] at hlen
      exact absurd hlen (by decide)
  exact .longest (show '\n' :: more = ['\n'] ++ more from rfl) (by simp) hselected hmaximal

/-! ## Restarting behind the line feed -/

/-- Fragments have the texts of their lexemes. -/
theorem map_text_classify (pending : Option Category) (lexemes : List (Lexeme Kind)) :
    (classify pending lexemes).map (·.text) = lexemes.map fun l => String.ofList l.text := by
  induction lexemes generalizing pending with
  | nil => rfl
  | cons l rest ih => rw [classify, List.map_cons, List.map_cons, ih]

/-- Lexemes are classified one after the other; what is pending is all that is handed on. -/
theorem classify_append (pending : Option Category) (front back : List (Lexeme Kind)) :
    classify pending (front ++ back) =
      classify pending front ++
        classify (front.foldl (fun pending l => defines pending l.kind) pending) back := by
  induction front generalizing pending with
  | nil => rfl
  | cons l rest ih =>
    rw [List.cons_append, classify, classify, ih, List.foldl_cons, List.cons_append]

/-- A last lexeme that is just a line feed is a line break. -/
private theorem exists_lexemes_eq_concat {text : List Char} {l : Lexeme Kind}
    (hlast : (grammar.lexemes text).getLast? = some l) (htext : l.text = ['\n']) :
    ∃ before, grammar.lexemes text = before ++ [⟨some .newline, ['\n']⟩] := by
  obtain ⟨before, hbefore⟩ := List.getLast?_eq_some_iff.mp hlast
  have hnext := Grammar.next_of_lexemes_eq hbefore
  rw [List.flatMap_singleton, htext] at hnext
  rw [(next_lineFeed []).unique hnext]
  exact ⟨before, hbefore⟩

/-- Behind a line break that is a lexeme of its own the text is read afresh. -/
theorem lexemes_append_of_lineFeed {text more : List Char} {before : List (Lexeme Kind)}
    (h : grammar.lexemes text = before ++ [⟨some .newline, ['\n']⟩]) :
    grammar.lexemes (text ++ more) = grammar.lexemes text ++ grammar.lexemes more := by
  refine Grammar.lexemes_append_of_last h (next_lineFeed more) fun l rest hnext hsuffix => ?_
  obtain ⟨front, rfl⟩ := hsuffix
  exact next_append hnext List.getLast?_concat

end Python

/-- If the last fragment of a text with a final line feed is just this line feed, then what follows
    the text has the fragments that it has on its own, and those of the text stay as they are. -/
theorem fragments_append_of_lineFeed (a b : String)
    (h : ((python.fragments (a ++ "\n")).getLast?.map (·.text)) = some "\n") :
    python.fragments (a ++ "\n" ++ b) = python.fragments (a ++ "\n") ++ python.fragments b := by
  -- fragments and lexemes have the same texts
  have hlast : ((Python.grammar.lexemes (a ++ "\n").toList).getLast?.map fun l =>
      String.ofList l.text) = some "\n" := by
    rw [← List.getLast?_map, ← Python.map_text_classify none, List.getLast?_map]
    exact h
  obtain ⟨l, hl, htext⟩ := Option.map_eq_some_iff.mp hlast
  have hfeed : l.text = ['\n'] := by
    rw [← String.toList_ofList (l := l.text), htext]
    rfl
  -- a fragment of one line feed is a lexeme of its own, so the lexer starts anew behind it
  obtain ⟨before, hbefore⟩ := Python.exists_lexemes_eq_concat hl hfeed
  show Python.classify none (Python.grammar.lexemes (a ++ "\n" ++ b).toList) = _
  rw [String.toList_append, Python.lexemes_append_of_lineFeed hbefore, Python.classify_append]
  -- the line break leaves nothing pending
  have hpending : (Python.grammar.lexemes (a ++ "\n").toList).foldl
      (fun pending l => Python.defines pending l.kind) none = none := by
    rw [hbefore, List.foldl_append]
    rfl
  rw [hpending]
  rfl

/-- A string that its line leaves open ends there, and a definition does not wait for its name. -/
theorem fragments_append_of_openString :
    python.fragments "def 'a\nb'" = python.fragments "def 'a\n" ++ python.fragments "b'" := by
  have hlast : ((python.fragments ("def 'a" ++ "\n")).getLast?.map (·.text)) = some "\n" := by
    decide +kernel
  exact fragments_append_of_lineFeed "def 'a" "b'" hlast

end Tinct.Lexer
