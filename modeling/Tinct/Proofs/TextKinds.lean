import Tinct.Proofs.PythonKinds

/-!
# The kinds of texts

At most one kind of JSON lexemes describes a text, and at most one kind of Python lexemes apart from
names, which include the words of the tables.  So the longest match settles the kind of a lexeme,
and the rules of both lexers may stand in any order, as long as those for words stand before the one
for names.

## Key results

- `JsonText.textKind?_of_matches`: the kind of a JSON text, told from the text
- `Lexer.kinds_unambiguous`: which texts have two kinds, and that the order of the rules does not
  matter for the fragments
-/

namespace Tinct.Lexer

open Grammar

namespace JsonText

/-! ## Kinds told from texts -/

/-- The characters with which only texts of a single kind start. -/
def ownStarts : List (String × Kind) :=
  [(" \t\r\n", .blank), ("tfn", .constant), (":", .colon), ("\x7b\x7d[],", .punctuation)]

/-- The kind that a text can have: a string is open if all behind its first quote can be content of
    a string, and a number with a point or an exponent is a float. -/
def textKind? : List Char → Option Kind
  | [] => none
  | c :: tail =>
    (kindByStart? ownStarts c).or <| some <|
      if c = '"' then if stringContent.Matches tail then .openString else .string
      else if Json.Piece.isFraction (c :: tail) then .float
      else .integer

/-- The first character tells the kind, if it is one that only one kind starts with. -/
theorem textKind?_of_start {c : Char} {kind : Kind} (h : kindByStart? ownStarts c = some kind)
    (tail : List Char) : textKind? (c :: tail) = some kind := by
  rw [textKind?, h, Option.some_or]

/-- What starts like a number is one, of a kind that its characters tell. -/
theorem textKind?_number {c : Char} (hc : c ∈ "-0123456789".toList) (tail : List Char) :
    textKind? (c :: tail) =
      some (if Json.Piece.isFraction (c :: tail) then .float else .integer) := by
  have hother : ∀ c ∈ "-0123456789".toList, kindByStart? ownStarts c = none ∧ c ≠ '"' :=
    forall_mem_of_all (by decide)
  obtain ⟨hstart, hquote⟩ := hother c hc
  rw [textKind?, hstart, Option.none_or, if_neg hquote]

theorem textKind?_integer {w : List Char} (h : wholePart.Matches w) :
    textKind? w = some .integer := by
  have hplain := isFraction_of_wholePart h
  obtain ⟨c, tail, rfl, hc⟩ := exists_cons_of_wholePart h
  rw [textKind?_number hc, hplain]
  rfl

/-- Numbers with a fraction or an exponent are known as such. -/
theorem textKind?_float {w : List Char} (h : floatPattern.Matches w) :
    textKind? w = some .float := by
  have hfraction := isFraction_of_floatPattern h
  have hwhole : ∃ whole rest, w = whole ++ rest ∧ wholePart.Matches whole := by
    rcases Pattern.matches_either_iff.mp h with h | h
    all_goals
      obtain ⟨whole, rest, hwhole, -, rfl⟩ := Pattern.matches_seq_iff.mp h
      exact ⟨whole, rest, rfl, hwhole⟩
  obtain ⟨whole, rest, rfl, hwhole⟩ := hwhole
  obtain ⟨c, tail, rfl, hc⟩ := exists_cons_of_wholePart hwhole
  rw [List.cons_append] at hfraction ⊢
  rw [textKind?_number hc, hfraction, if_pos rfl]

/-- With its last quote a string is no content of strings any more. -/
theorem textKind?_string {w : List Char}
    (h : (Pattern.inOrder [.text "\"", stringContent, .text "\""]).Matches w) :
    textKind? w = some .string := by
  obtain ⟨run, rfl, hrun⟩ := Json.Spelling.matches_quotes_iff.mp h
  have hclosed : ¬ stringContent.Matches (run ++ ['"']) := by
    intro hopen
    have hlen := length_le_of_stringContent hrun hopen (List.prefix_refl _)
    rw [List.length_append] at hlen
    exact absurd hlen (Nat.not_succ_le_self _)
  show some (if stringContent.Matches (run ++ ['"']) then Kind.openString else .string) = _
  rw [if_neg hclosed]

/-- Strings that stay open are known as such. -/
theorem textKind?_openString {w : List Char}
    (h : (Pattern.seq (.text "\"") stringContent).Matches w) : textKind? w = some .openString := by
  obtain ⟨quote, run, hquote, hrun, rfl⟩ := Pattern.matches_seq_iff.mp h
  obtain rfl := Pattern.matches_text_iff.mp hquote
  show some (if stringContent.Matches run then Kind.openString else .string) = _
  rw [if_pos hrun]

theorem textKind?_blank {w : List Char} (h : (Pattern.many1 (.anyOf " \t\r\n")).Matches w) :
    textKind? w = some .blank := by
  have hstart : ∀ c ∈ " \t\r\n".toList, kindByStart? ownStarts c = some .blank :=
    forall_mem_of_all (by decide)
  obtain ⟨c, tail, rfl, hc⟩ := Pattern.exists_cons_of_many1_anyOf h
  exact textKind?_of_start (hstart c hc) tail

theorem textKind?_constant {w : List Char}
    (h : (Pattern.oneOfTexts ["true", "false", "null"]).Matches w) :
    textKind? w = some .constant := by
  have hconstants : ∀ word ∈ ["true", "false", "null"], textKind? word.toList = some .constant := by
    decide
  rw [Pattern.matches_oneOfTexts_iff] at h
  have := hconstants _ h
  rwa [String.toList_ofList] at this

theorem textKind?_punctuation {w : List Char} (h : (Pattern.anyOf "\x7b\x7d[],").Matches w) :
    textKind? w = some .punctuation := by
  have hmarks : ∀ c ∈ "\x7b\x7d[],".toList, textKind? [c] = some .punctuation :=
    forall_mem_of_all (by decide)
  obtain ⟨c, hc, rfl⟩ := Pattern.matches_one_iff.mp h
  exact hmarks c (List.contains_iff_mem.mp hc)

/-- A text that a rule describes has the kind of the rule. -/
theorem textKind?_of_matches {r : Rule Kind} (hr : r ∈ grammar.rules) {w : List Char}
    (h : r.pattern.Matches w) : textKind? w = some r.kind := by
  revert r
  simp only [grammar, List.forall_mem_cons, List.not_mem_nil, false_implies, implies_true, and_true]
  refine ⟨textKind?_blank, textKind?_string, textKind?_integer, textKind?_float,
    textKind?_constant, fun h => ?_, textKind?_punctuation, textKind?_openString⟩
  obtain rfl := Pattern.matches_text_iff.mp h
  rfl

/-- No text has two kinds. -/
theorem eq_of_describes {kind other : Kind} {w : List Char}
    (hkind : Describes grammar.rules kind w) (hother : Describes grammar.rules other w) :
    kind = other := by
  obtain ⟨r, hr, rfl, hmatches⟩ := hkind
  obtain ⟨r', hr', rfl, hmatches'⟩ := hother
  exact Option.some.inj ((textKind?_of_matches hr hmatches).symm.trans
    (textKind?_of_matches hr' hmatches'))

/-- No text has two kinds, so no kind has to go before another one. -/
theorem unambiguous_rules : Unambiguous (fun _ _ => False) grammar.rules :=
  fun _ _ _ hkind hother => .inl (eq_of_describes hkind hother)

end JsonText

/-! ## Both lexers -/

/-- A Python text has at most one kind, except that each word of the tables is also a name, where
    its own kind counts; a JSON text has at most one kind.  So in both lexers any other list of
    rules that describe the same texts for every kind gives the same fragments, where for Python the
    rules for words must stand before those for names. -/
theorem kinds_unambiguous :
    (∀ kind other w, Describes Python.rules kind w → Describes Python.rules other w →
      kind = other ∨ String.ofList w ∈ Python.tabledWords ∧ (kind = .name ∨ other = .name)) ∧
    (∀ word ∈ Python.tabledWords, Describes Python.rules .name word.toList ∧
      Python.wordKind word ≠ .name ∧
      selected Python.rules word.toList = some (Python.wordKind word)) ∧
    (∀ kind other w, Describes JsonText.grammar.rules kind w →
      Describes JsonText.grammar.rules other w → kind = other) ∧
    (∀ rules, SameTexts rules Python.rules → Sorts Python.goesBefore rules → ∀ source : String,
      Python.classify none (lexemes ⟨rules, Python.extend⟩ source.toList) =
        python.fragments source) ∧
    ∀ rules, SameTexts rules JsonText.grammar.rules → ∀ source : String,
      JsonText.classify (lexemes ⟨rules, JsonText.grammar.extend⟩ source.toList) =
        json.fragments source := by
  refine ⟨fun _ _ _ => Python.eq_or_name_of_describes, fun _ => Python.describes_of_mem_tabledWords,
    fun _ _ _ => JsonText.eq_of_describes, fun rules hsame hsorts source => ?_,
    fun rules hsame source => ?_⟩
  · -- names and the words of the tables share texts, so their order has to be kept
    rw [lexemes_eq_of_sameTexts hsame hsorts Python.sorts_rules Python.unambiguous_rules]
    rfl
  · -- no two kinds share a text, so any order will do
    rw [lexemes_eq_of_sameTexts hsame (sorts_of_false _) (sorts_of_false _)
      JsonText.unambiguous_rules]
    rfl

/-- With the rules the other way round, names aside, a number with an exponent is still a float, and
    a quote behind a backslash does not end a string. -/
theorem kinds_unambiguous_of_reverse :
    let rules := (Python.rules.filter (·.kind ≠ .name)).reverse ++
      Python.rules.filter (·.kind = .name)
    SameTexts rules Python.rules ∧ Sorts Python.goesBefore rules ∧
    Python.classify none (lexemes ⟨rules, Python.extend⟩ "class is_:0e1".toList) =
      [⟨.ofKey "Keyword", "class"⟩, ⟨.ofKey "Text.Whitespace", " "⟩, ⟨.ofKey "Name.Class", "is_"⟩,
       ⟨.ofKey "Punctuation", ":"⟩, ⟨.ofKey "Literal.Number.Float", "0e1"⟩] ∧
    (∀ kind, Describes Python.rules kind "0e1".toList → kind = .float) ∧
    "is" ∈ Python.tabledWords ∧ Describes Python.rules .name "is".toList ∧
    selected Python.rules "is".toList = some .wordOperator ∧
    (∀ kind, Describes JsonText.grammar.rules kind "\"\\\"\"".toList → kind = .string) ∧
    JsonText.classify (lexemes ⟨JsonText.grammar.rules.reverse, JsonText.grammar.extend⟩
        "[-0.1,\"\\\"\"".toList) =
      [⟨.ofKey "Punctuation", "["⟩, ⟨.ofKey "Literal.Number.Float", "-0.1"⟩,
       ⟨.ofKey "Punctuation", ","⟩, ⟨.ofKey "Literal.String.Double", "\"\\\"\""⟩] := by
  intro rules
  obtain ⟨hpython, hwords, hjson, hpythonOrder, hjsonOrder⟩ := kinds_unambiguous
  have hsame : SameTexts rules Python.rules := by
    -- the rules are the others, reversed, and those for names
    have hnames : Python.rules.filter (·.kind = .name) =
        Python.rules.filter fun r => !decide (r.kind ≠ .name) := by simp
    refine sameTexts_of_perm (((List.reverse_perm _).append_right _).trans ?_)
    rw [hnames]
    exact List.filter_append_perm _ _
  have hsorts : Sorts Python.goesBefore rules := by decide
  have hfloat : Describes Python.rules .float "0e1".toList := by decide
  have hstring : Describes JsonText.grammar.rules .string "\"\\\"\"".toList := by decide
  have hword : "is" ∈ Python.tabledWords := by decide
  obtain ⟨hname, -, hselected⟩ := hwords "is" hword
  refine ⟨hsame, hsorts, ?_, fun kind hkind => ?_, hword, hname, hselected,
    fun kind hkind => ?_, ?_⟩
  · rw [hpythonOrder rules hsame hsorts]
    decide +kernel
  · exact (hpython kind .float _ hkind hfloat).resolve_right fun h => absurd h.1 (by decide)
  · exact hjson kind .string _ hkind hstring
  · rw [hjsonOrder _ (sameTexts_of_perm (List.reverse_perm _))]
    decide +kernel

end Tinct.Lexer
