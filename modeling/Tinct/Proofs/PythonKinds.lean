import Tinct.Proofs.PythonLexemes
import Tinct.Proofs.RuleOrder

/-!
# The kinds of Python texts

What kind of lexeme a text is can be told from the text alone.  Most kinds have first characters of
their own.  A number is told by its letters and its point, a string literal by its quote, and a
lexeme that starts with an at sign or a point by whether there is more behind it.  What is left are
names, and of these the tables single out some words.  So rules of two kinds describe the same text
only if it is such a word, and then one of the two is the rule for names.

## Key results

- `textKind?_of_matches`: the kind of a text that a rule describes, words aside
- `textKind?_eq_or_of_describes`: a text has the kind that is told from it, or is a word of the
  tables and also a name
- `unambiguous_rules`: only the rules for words and the one for names have common texts
-/

namespace Tinct.Lexer.Python

open Grammar

/-! ## Kinds told from texts -/

/-- The words that the tables tell from other names. -/
def tabledWords : List String :=
  ["def", "class"] ++ importWords ++ operatorWords ++ keywords ++ constants ++ builtins ++
    pseudoBuiltins

/-- The characters with which only texts of a single kind start. -/
def ownStarts : List (String × Kind) :=
  [(" \t\x0c", .blank), ("\n", .newline), ("\\", .continuation), ("#", .comment),
   ("-+*/%=<>!&|^~", .operator), ("()[]\x7b\x7d:;,", .punctuation)]

/-- The kind of a number that starts with a digit. -/
def numberKind (w : List Char) : Kind :=
  if 'x' ∈ w ∨ 'X' ∈ w then .hexadecimal
  else if w.all isDigitOrBar then .integer
  else .float

/-- The kind that a text can have, for names the one that the tables give. -/
def textKind? : List Char → Option Kind
  | [] => none
  | c :: tail =>
    (kindByStart? ownStarts c).or <| some <|
      if c = '@' then if tail = [] then .operator else .decorator
      else if c = '.' then if tail = [] then .punctuation else .float
      else if c.isDigit then numberKind (c :: tail)
      else if '\'' ∈ c :: tail then .string .single
      else if '"' ∈ c :: tail then .string .double
      else wordKind (String.ofList (c :: tail))

/-- The first character tells the kind, if it is one that only one kind starts with. -/
theorem textKind?_of_start {c : Char} {kind : Kind} (h : kindByStart? ownStarts c = some kind)
    (tail : List Char) : textKind? (c :: tail) = some kind := by
  rw [textKind?, h, Option.some_or]

/-! ## Numbers -/

open Pattern in
/-- The pattern of numbers with a point or an exponent. -/
def floatPattern : Pattern :=
  either (inOrder [digits, text ".", many (one isDigitOrBar), optional exponentPart])
    (either (inOrder [text ".", digits, optional exponentPart]) (seq digits exponentPart))

/-- Digits are a digit and digits or bars behind it. -/
theorem matches_digits_iff {w : List Char} :
    digits.Matches w ↔
      ∃ c tail, w = c :: tail ∧ c.isDigit = true ∧ ∀ d ∈ tail, isDigitOrBar d = true := by
  rw [digits, Pattern.matches_seq_iff]
  constructor
  · rintro ⟨first, tail, hfirst, htail, rfl⟩
    obtain ⟨c, hc, rfl⟩ := Pattern.matches_one_iff.mp hfirst
    exact ⟨c, tail, rfl, hc, Pattern.matches_many_one_iff.mp htail⟩
  · rintro ⟨c, tail, rfl, hc, htail⟩
    exact ⟨[c], tail, .one hc, Pattern.matches_many_one_iff.mpr htail, rfl⟩

/-- What starts with a digit is a number. -/
theorem textKind?_of_isDigit {c : Char} (hc : c.isDigit = true) (tail : List Char) :
    textKind? (c :: tail) = some (numberKind (c :: tail)) := by
  have hstart : kindByStart? ownStarts c = none := kindByStart?_eq_none (by decide) hc
  have hat : c ≠ '@' := by
    rintro rfl
    cases hc
  have hpoint : c ≠ '.' := by
    rintro rfl
    cases hc
  rw [textKind?, hstart, Option.none_or, if_neg hat, if_neg hpoint, if_pos hc]

theorem textKind?_hexadecimal {w : List Char}
    (h : (Pattern.inOrder [.text "0", .anyOf "xX", .many1 (.one isHexOrBar)]).Matches w) :
    textKind? w = some .hexadecimal := by
  obtain ⟨zero, _, hzero, hmore, rfl⟩ := Pattern.matches_seq_iff.mp h
  obtain rfl := Pattern.matches_text_iff.mp hzero
  obtain ⟨letter, tail, hletter, -, rfl⟩ := Pattern.matches_seq_iff.mp hmore
  obtain ⟨x, hx, rfl⟩ := Pattern.matches_one_iff.mp hletter
  have hx : x = 'x' ∨ x = 'X' := by simpa using hx
  have hmem : 'x' ∈ '0' :: x :: tail ∨ 'X' ∈ '0' :: x :: tail := by
    rcases hx with rfl | rfl <;> simp
  show textKind? ('0' :: x :: tail) = some .hexadecimal
  rw [textKind?_of_isDigit rfl, numberKind, if_pos hmem]

/-- A number that is not hexadecimal is told by whether it has only digits and underscores. -/
theorem numberKind_eq {p : Pattern} (hp : p.allows 'x' = false ∧ p.allows 'X' = false)
    {w : List Char} (h : p.Matches w) :
    numberKind w = if w.all isDigitOrBar then .integer else .float := by
  have hletters : ¬ ('x' ∈ w ∨ 'X' ∈ w) := by
    rintro (hmem | hmem)
    · exact absurd (Pattern.allows_of_mem h hmem) (by rw [hp.1]; decide)
    · exact absurd (Pattern.allows_of_mem h hmem) (by rw [hp.2]; decide)
  rw [numberKind, if_neg hletters]

theorem textKind?_integer {w : List Char} (h : digits.Matches w) :
    textKind? w = some .integer := by
  obtain ⟨c, tail, rfl, hc, htail⟩ := matches_digits_iff.mp h
  have hall : (c :: tail).all isDigitOrBar = true := by
    simpa [isDigitOrBar, hc] using htail
  rw [textKind?_of_isDigit hc, numberKind_eq (by decide) h, if_pos hall]

/-- A number that starts with digits and goes on with another character is no integer. -/
private theorem textKind?_digits_append {whole behind : List Char} (hwhole : digits.Matches whole)
    {d : Char} (hd : d ∈ behind) (hmark : isDigitOrBar d = false)
    (h : floatPattern.Matches (whole ++ behind)) : textKind? (whole ++ behind) = some .float := by
  have hall : ¬ (whole ++ behind).all isDigitOrBar = true := by
    intro hall
    rw [List.all_eq_true.mp hall d (List.mem_append_right whole hd)] at hmark
    cases hmark
  have hkind := numberKind_eq (by decide) h
  obtain ⟨c, tail, rfl, hc, -⟩ := matches_digits_iff.mp hwhole
  rw [List.cons_append] at hkind hall ⊢
  rw [textKind?_of_isDigit hc, hkind, if_neg hall]

/-- Numbers with a point or an exponent are known as such. -/
theorem textKind?_float {w : List Char} (h : floatPattern.Matches w) :
    textKind? w = some .float := by
  rcases Pattern.matches_either_iff.mp h with hleft | hright
  · -- digits with a point behind them
    obtain ⟨whole, _, hwhole, hbehind, rfl⟩ := Pattern.matches_seq_iff.mp hleft
    obtain ⟨point, _, hpoint, -, rfl⟩ := Pattern.matches_seq_iff.mp hbehind
    obtain rfl := Pattern.matches_text_iff.mp hpoint
    exact textKind?_digits_append (d := '.') hwhole (by simp) rfl h
  rcases Pattern.matches_either_iff.mp hright with hplaces | hpower
  · -- the point has a digit behind it, so it is no mark
    obtain ⟨point, _, hpoint, hbehind, rfl⟩ := Pattern.matches_seq_iff.mp hplaces
    obtain rfl := Pattern.matches_text_iff.mp hpoint
    obtain ⟨places, _, hdigits, -, rfl⟩ := Pattern.matches_seq_iff.mp hbehind
    obtain ⟨c, tail, rfl, -, -⟩ := matches_digits_iff.mp hdigits
    rfl
  · -- digits with the letter of an exponent behind them
    obtain ⟨whole, _, hwhole, hexponent, rfl⟩ := Pattern.matches_seq_iff.mp hpower
    obtain ⟨letter, _, hletter, -, rfl⟩ := Pattern.matches_seq_iff.mp hexponent
    obtain ⟨e, he, rfl⟩ := Pattern.matches_one_iff.mp hletter
    have hmark : isDigitOrBar e = false := by
      have he : e = 'e' ∨ e = 'E' := by simpa using he
      rcases he with rfl | rfl <;> rfl
    exact textKind?_digits_append (d := e) hwhole (by simp) hmark h

/-! ## Names and string literals -/

/-- The characters with which names and string literals start. -/
def otherStarts : List Char := '\'' :: '"' :: nameStarters

/-- These characters start no kind of their own, and no number. -/
private theorem kindByStart?_otherStarts :
    ∀ c ∈ otherStarts, kindByStart? ownStarts c = none ∧ c ≠ '@' ∧ c ≠ '.' ∧ c.isDigit = false :=
  forall_mem_of_all (by decide)

/-- A name or a string literal is told by its quote. -/
theorem textKind?_of_otherStarts {c : Char} (hc : c ∈ otherStarts) (tail : List Char) :
    textKind? (c :: tail) = some (if '\'' ∈ c :: tail then .string .single
      else if '"' ∈ c :: tail then .string .double
      else wordKind (String.ofList (c :: tail))) := by
  obtain ⟨hstart, hat, hpoint, hdigit⟩ := kindByStart?_otherStarts c hc
  have hdigit : ¬ c.isDigit = true := by simp [hdigit]
  rw [textKind?, hstart, Option.none_or, if_neg hat, if_neg hpoint, if_neg hdigit]

/-- A name is known as a word. -/
theorem textKind?_of_isName {w : List Char} (h : isName w = true) :
    textKind? w = some (wordKind (String.ofList w)) := by
  have hcontinues := continuesName_of_isName h
  have hnot : ∀ d : Char, continuesName d = false → d ∉ w := by
    intro d hd hmem
    rw [hcontinues d hmem] at hd
    cases hd
  cases w with
  | nil => cases h
  | cons c tail =>
    have hc := mem_nameStarters (isName_cons_iff.mp h).1
    rw [textKind?_of_otherStarts (List.mem_cons_of_mem _ (List.mem_cons_of_mem _ hc)),
      if_neg (hnot _ (by decide)), if_neg (hnot _ (by decide))]

/-- An opening is known as that of a string with its quote. -/
theorem textKind?_opening {t : String} {quote : Char} (ht : t.toList = [quote])
    (hquote : quote = '\'' ∨ quote = '"') {w : List Char} (h : (opening t).Matches w) :
    textKind? w = some (.string (quoteForm quote)) := by
  have hstarts : ∀ c ∈ stringLetters, c ∈ otherStarts := forall_mem_of_all (by decide)
  have hnone : '\'' ∉ stringLetters := by decide
  obtain ⟨letters, rfl, -, hletters⟩ := exists_letters_of_matches_opening ht h
  -- the first character is one of the letters or the quote
  have hfirst : ∃ c tail, letters ++ [quote] = c :: tail ∧ c ∈ otherStarts := by
    cases letters with
    | nil =>
      refine ⟨quote, [], rfl, ?_⟩
      rcases hquote with rfl | rfl <;> decide
    | cons c tail => exact ⟨c, _, rfl, hstarts c (hletters c List.mem_cons_self)⟩
  obtain ⟨c, tail, hcons, hc⟩ := hfirst
  rw [hcons, textKind?_of_otherStarts hc, ← hcons]
  rcases hquote with rfl | rfl
  · rw [if_pos (by simp)]
    rfl
  · -- the other quote is no letter of a prefix
    have hsingle : '\'' ∉ letters ++ ['"'] := by
      rintro hmem
      rcases List.mem_append.mp hmem with hmem | hmem
      · exact hnone (hletters _ hmem)
      · exact absurd hmem (by decide)
    rw [if_neg hsingle, if_pos (by simp)]
    rfl

/-! ## Words -/

/-- The words of the tables are those that are not just names. -/
theorem mem_tabledWords_iff {word : String} : word ∈ tabledWords ↔ wordKind word ≠ .name := by
  simp only [tabledWords, wordKind, List.mem_append, List.mem_cons, List.not_mem_nil, or_false]
  split_ifs <;> simp_all

/-- No word is in two tables. -/
theorem wordKind_of_mem :
    (∀ word ∈ importWords, wordKind word = .importWord) ∧
    (∀ word ∈ operatorWords, wordKind word = .wordOperator) ∧
    (∀ word ∈ keywords, wordKind word = .keyword) ∧
    (∀ word ∈ constants, wordKind word = .constant) ∧
    (∀ word ∈ builtins, wordKind word = .builtin) ∧
    ∀ word ∈ pseudoBuiltins, wordKind word = .pseudoBuiltin := by
  decide

/-- A rule for the words of a table gives them the kind from the table. -/
theorem kind_eq_wordKind {r : Rule Kind} (hr : r ∈ rules) (hword : isWord r.kind = true)
    (hname : r.kind ≠ .name) {w : List Char} (h : r.pattern.Matches w) :
    r.kind = wordKind (String.ofList w) := by
  obtain ⟨himport, hoperator, hkeyword, hconstant, hbuiltin, hpseudo⟩ := wordKind_of_mem
  revert r
  -- of the rules for words, each describes the words of one list
  simp only [rules, List.forall_mem_cons, isWord, Pattern.matches_oneOfTexts_iff,
    Pattern.matches_text_iff, Bool.false_eq_true, false_implies, true_and, forall_true_left,
    ne_eq, not_true_eq_false, List.not_mem_nil, implies_true, and_true, reduceCtorEq,
    not_false_eq_true]
  refine ⟨fun hw => ?_, fun hw => ?_, fun hw => (himport _ hw).symm,
    fun hw => (hoperator _ hw).symm, fun hw => (hkeyword _ hw).symm,
    fun hw => (hconstant _ hw).symm, fun hw => (hbuiltin _ hw).symm,
    fun hw => (hpseudo _ hw).symm⟩
  · rw [hw, String.ofList_toList]
    rfl
  · rw [hw, String.ofList_toList]
    rfl

/-! ## All rules -/

theorem textKind?_blank {w : List Char} (h : (Pattern.many1 (.anyOf " \t\x0c")).Matches w) :
    textKind? w = some .blank := by
  have hstart : ∀ c ∈ " \t\x0c".toList, kindByStart? ownStarts c = some .blank :=
    forall_mem_of_all (by decide)
  obtain ⟨c, tail, rfl, hc⟩ := Pattern.exists_cons_of_many1_anyOf h
  exact textKind?_of_start (hstart c hc) tail

theorem textKind?_comment {w : List Char}
    (h : (Pattern.seq (.text "#") (.many (.noneOf "\n"))).Matches w) :
    textKind? w = some .comment := by
  obtain ⟨mark, tail, hmark, -, rfl⟩ := Pattern.matches_seq_iff.mp h
  obtain rfl := Pattern.matches_text_iff.mp hmark
  exact textKind?_of_start (c := '#') (by decide) tail

theorem textKind?_decorator {w : List Char}
    (h : (Pattern.inOrder [.text "@", .one startsName,
      .many (.one fun c => continuesName c || c = '.')]).Matches w) :
    textKind? w = some .decorator := by
  obtain ⟨mark, _, hmark, hname, rfl⟩ := Pattern.matches_seq_iff.mp h
  obtain rfl := Pattern.matches_text_iff.mp hmark
  obtain ⟨first, tail, hfirst, -, rfl⟩ := Pattern.matches_seq_iff.mp hname
  obtain ⟨c, -, rfl⟩ := Pattern.matches_one_iff.mp hfirst
  rfl

theorem textKind?_operator {w : List Char}
    (h : (Pattern.either (.many1 (.anyOf "-+*/%=<>!&|^~")) (.text "@")).Matches w) :
    textKind? w = some .operator := by
  have hstart : ∀ c ∈ "-+*/%=<>!&|^~".toList, kindByStart? ownStarts c = some .operator :=
    forall_mem_of_all (by decide)
  rcases Pattern.matches_either_iff.mp h with hrun | hat
  · obtain ⟨c, tail, rfl, hc⟩ := Pattern.exists_cons_of_many1_anyOf hrun
    exact textKind?_of_start (hstart c hc) tail
  · obtain rfl := Pattern.matches_text_iff.mp hat
    rfl

theorem textKind?_punctuation {w : List Char}
    (h : (Pattern.anyOf "()[]\x7b\x7d:;,.").Matches w) : textKind? w = some .punctuation := by
  have hmarks : ∀ c ∈ "()[]\x7b\x7d:;,.".toList, textKind? [c] = some .punctuation :=
    forall_mem_of_all (by decide)
  obtain ⟨c, hc, rfl⟩ := Pattern.matches_one_iff.mp h
  exact hmarks c (List.contains_iff_mem.mp hc)

/-- A text that a rule describes has the kind of the rule, if this is not one of the rules for
    words. -/
theorem textKind?_of_matches {r : Rule Kind} (hr : r ∈ rules) (hword : isWord r.kind = false)
    {w : List Char} (h : r.pattern.Matches w) : textKind? w = some r.kind := by
  revert r
  simp only [rules, List.forall_mem_cons, isWord, Bool.true_eq_false, false_implies, true_and,
    forall_true_left, List.not_mem_nil, implies_true, and_true]
  refine ⟨textKind?_blank, fun h => ?_, fun h => ?_, textKind?_comment, textKind?_decorator,
    textKind?_opening rfl (.inl rfl), textKind?_opening rfl (.inr rfl), textKind?_hexadecimal,
    textKind?_integer, textKind?_float, textKind?_operator, textKind?_punctuation⟩
  · obtain rfl := Pattern.matches_text_iff.mp h
    rfl
  · obtain rfl := Pattern.matches_text_iff.mp h
    rfl

/-- A text has the kind that is told from it, or it is a word of the tables and is taken for a
    name. -/
theorem textKind?_eq_or_of_describes {kind : Kind} {w : List Char}
    (h : Describes rules kind w) :
    textKind? w = some kind ∨ kind = .name ∧ String.ofList w ∈ tabledWords := by
  obtain ⟨r, hr, rfl, hmatches⟩ := h
  cases hword : isWord r.kind with
  | false => exact .inl (textKind?_of_matches hr hword hmatches)
  | true =>
    rw [textKind?_of_isName (isName_of_matches hr hword hmatches), Option.some_inj]
    by_cases hname : r.kind = .name
    · rw [hname, mem_tabledWords_iff]
      simp only [true_and]
      exact Classical.em _
    · exact .inl (kind_eq_wordKind hr hword hname hmatches).symm

/-- Two kinds with a common text are those of a word of the tables, and one of them is that of
    names. -/
theorem eq_or_name_of_describes {kind other : Kind} {w : List Char}
    (hkind : Describes rules kind w) (hother : Describes rules other w) :
    kind = other ∨ String.ofList w ∈ tabledWords ∧ (kind = .name ∨ other = .name) := by
  rcases textKind?_eq_or_of_describes hkind with hkind | ⟨hname, hmem⟩
  · rcases textKind?_eq_or_of_describes hother with hother | ⟨hname, hmem⟩
    · exact .inl (Option.some.inj (hkind.symm.trans hother))
    · exact .inr ⟨hmem, .inr hname⟩
  · exact .inr ⟨hmem, .inl hname⟩

/-! ## The order of the rules -/

/-- The kinds of the words of the tables go before that of names. -/
def goesBefore (kind other : Kind) : Prop := isWord kind = true ∧ kind ≠ .name ∧ other = .name

instance : DecidableRel goesBefore := fun kind other =>
  inferInstanceAs (Decidable (isWord kind = true ∧ kind ≠ .name ∧ other = .name))

/-- The rule for names stands behind those for the tables. -/
theorem sorts_rules : Sorts goesBefore rules := by decide

/-- What is also a name is a word. -/
theorem isWord_of_describes_name {kind : Kind} {w : List Char}
    (hname : Describes rules .name w) (h : Describes rules kind w) :
    isWord kind = true := by
  obtain ⟨r, hr, hkind, hmatches⟩ := hname
  have hw : isName w = true := isName_of_matches hr (by rw [hkind]; rfl) hmatches
  rcases textKind?_eq_or_of_describes h with hkind | ⟨rfl, -⟩
  · rw [textKind?_of_isName hw] at hkind
    exact Option.some.inj hkind ▸ isWord_wordKind _
  · rfl

/-- Only the rules for words and the one for names have common texts. -/
theorem unambiguous_rules : Unambiguous goesBefore rules := by
  intro w kind other hkind hother
  by_cases hsame : kind = other
  · exact .inl hsame
  rcases (eq_or_name_of_describes hkind hother).resolve_left hsame with ⟨-, rfl | rfl⟩
  · exact .inr (.inr ⟨isWord_of_describes_name hkind hother, Ne.symm hsame, rfl⟩)
  · exact .inr (.inl ⟨isWord_of_describes_name hother hkind, hsame, rfl⟩)

/-- A word of the tables is also a name, but the rule of its table counts. -/
theorem describes_of_mem_tabledWords {word : String} (h : word ∈ tabledWords) :
    Describes rules .name word.toList ∧ wordKind word ≠ .name ∧
      selected rules word.toList = some (wordKind word) := by
  have hnames : ∀ word ∈ tabledWords, isName word.toList = true := by decide
  have hname := hnames word h
  have hselected := selected_of_isName hname
  rw [String.ofList_toList] at hselected
  refine ⟨?_, mem_tabledWords_iff.mp h, hselected⟩
  exact ⟨⟨.name, .seq (.one startsName) (.many (.one continuesName))⟩, by simp [rules], rfl,
    matches_name_iff.mpr hname⟩

end Tinct.Lexer.Python
