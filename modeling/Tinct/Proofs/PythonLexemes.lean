import Mathlib.Data.List.TakeWhile
import Tinct.Proofs.LineRestart

/-!
# Python lexemes and their fragments

Every fragment belongs to a lexeme, and gets the category of its kind or, if it is a name, the one
that is pending behind the lexemes before it.  The kind of a lexeme can be told from its text: what
starts with a letter is a whole word, unless it is a string literal, and the tables of words decide
about its kind; only blanks are blank.

## Key results

- `exists_lexeme`: the lexeme of a fragment
- `word_of_next`: a lexeme that starts like a name and is no string literal is a whole word
- `kind_eq_blank_iff`: the blank lexemes are those whose texts are blank
-/

namespace Tinct.Lexer.Python

/-! ## Fragments of lexemes -/

/-- The category that lexemes leave pending for a name right behind them. -/
def pendingAfter (lexemes : List (Lexeme Kind)) : Option Category :=
  lexemes.foldl (fun pending l => defines pending l.kind) none

/-- The fragment of a lexeme. -/
def fragmentOf (pending : Option Category) (l : Lexeme Kind) : Fragment :=
  ⟨if isNameLike l.kind then pending.getD (category l.kind) else category l.kind,
    String.ofList l.text⟩

theorem classify_cons (pending : Option Category) (l : Lexeme Kind) (rest : List (Lexeme Kind)) :
    classify pending (l :: rest) = fragmentOf pending l :: classify (defines pending l.kind) rest :=
  rfl

/-- There are as many fragments as lexemes. -/
theorem length_classify (pending : Option Category) (lexemes : List (Lexeme Kind)) :
    (classify pending lexemes).length = lexemes.length := by
  induction lexemes generalizing pending with
  | nil => rfl
  | cons l rest ih => rw [classify_cons, List.length_cons, List.length_cons, ih]

/-- The last lexeme decides what is pending behind all of them. -/
theorem pendingAfter_concat (front : List (Lexeme Kind)) (l : Lexeme Kind) :
    pendingAfter (front ++ [l]) = defines (pendingAfter front) l.kind :=
  List.foldl_concat _ _ _ _

/-- The last fragment is that of the last lexeme, read with what is pending before it. -/
theorem classify_concat (front : List (Lexeme Kind)) (l : Lexeme Kind) :
    classify none (front ++ [l]) = classify none front ++ [fragmentOf (pendingAfter front) l] :=
  classify_append none front [l]

/-- Only a definition leaves a category pending. -/
theorem pendingAfter_cases (front : List (Lexeme Kind)) :
    pendingAfter front = none ∨ pendingAfter front = some (.ofKey "Name.Function") ∨
      pendingAfter front = some (.ofKey "Name.Class") := by
  induction front using List.reverseRecOn with
  | nil => exact .inl rfl
  | append_singleton front l ih =>
    rw [pendingAfter_concat]
    unfold defines
    split
    · exact .inr (.inl rfl)
    · exact .inr (.inr rfl)
    · exact ih
    · exact .inl rfl

/-- A fragment belongs to a lexeme of the text at the same place, and gets its category from the
    lexemes up to it. -/
theorem exists_lexeme {source : String} {before after : List Fragment} {f : Fragment}
    (h : python.fragments source = before ++ f :: after) :
    ∃ front l, before = classify none front ∧ f = fragmentOf (pendingAfter front) l ∧
      ∃ back, grammar.lexemes source.toList = front ++ l :: back ∧
        (f :: after).flatMap (·.text.toList) = (l :: back).flatMap (·.text) := by
  have h : classify none (grammar.lexemes source.toList) = before ++ f :: after := h
  generalize grammar.lexemes source.toList = lexemes at h
  have hlength : before.length ≤ lexemes.length := by
    have := congrArg List.length h
    rw [length_classify, List.length_append] at this
    omega
  -- the lexemes split at the same place
  rw [← List.take_append_drop before.length lexemes, classify_append] at h
  obtain ⟨hbefore, hafter⟩ := List.append_inj h
    (by rw [length_classify, List.length_take, Nat.min_eq_left hlength])
  cases hdrop : lexemes.drop before.length with
  | nil =>
    rw [hdrop] at hafter
    cases hafter
  | cons l back =>
    -- from there on fragments and lexemes have the same texts
    have htexts := (classifies_classify (pendingAfter (lexemes.take before.length))
      (l :: back)).text_eq
    rw [hdrop, classify_cons] at hafter
    obtain ⟨rfl, rfl⟩ := List.cons.inj hafter
    refine ⟨lexemes.take before.length, l, hbefore.symm, rfl, back, ?_, htexts⟩
    rw [← hdrop, List.take_append_drop]

/-! ## Kinds that stay -/

/-- Only openings of strings are extended. -/
theorem extend_of_not_isString {kind : Kind} (h : isString kind = false) (found behind : List Char) :
    extend kind found behind = (kind, 0) := by
  cases kind with
  | string form => cases h
  | _ => rfl

/-- What is extended stays a string. -/
theorem isString_extend (kind : Kind) (found behind : List Char) :
    isString (extend kind found behind).1 = isString kind := by
  cases kind with
  | string form => rfl
  | _ => rfl

/-- A lexeme of a kind that is no string literal is just what the rules found. -/
theorem selected_of_next {rest : List Char} {l : Lexeme Kind} {kind : Kind}
    (h : grammar.Next rest l) (hkind : l.kind = some kind) (hstring : isString kind = false) :
    Grammar.selected rules l.text = some kind ∧ l.text <+: rest ∧
      ∀ r ∈ rules, ∀ w, w <+: rest → l.text.length < w.length → ¬ r.pattern.Matches w := by
  cases h with
  | unknown => cases hkind
  | @longest found behind base hsplit _ hselected hmaximal =>
    have hbase : isString base = false := by
      have hlast : (extend base found behind).1 = kind := Option.some.inj hkind
      rw [← isString_extend base found behind, hlast, hstring]
    have hextend := extend_of_not_isString hbase found behind
    simp only [grammar, hextend, List.take_zero, List.append_nil] at hkind ⊢
    obtain rfl := Option.some.inj hkind
    exact ⟨hselected, hsplit ▸ List.prefix_append found behind, hmaximal⟩

/-! ## Words -/

/-- The kind that the tables of words give to a word. -/
def wordKind (word : String) : Kind :=
  if word = "def" then .function
  else if word = "class" then .classWord
  else if word ∈ importWords then .importWord
  else if word ∈ operatorWords then .wordOperator
  else if word ∈ keywords then .keyword
  else if word ∈ constants then .constant
  else if word ∈ builtins then .builtin
  else if word ∈ pseudoBuiltins then .pseudoBuiltin
  else .name

/-- Whether a kind is one of those that `wordKind` gives. -/
def isWord : Kind → Bool
  | .function | .classWord | .importWord | .wordOperator | .keyword | .constant | .builtin
  | .pseudoBuiltin | .name => true
  | _ => false

/-- What starts a name can also stand within it. -/
theorem continuesName_of_startsName {c : Char} (h : startsName c = true) :
    continuesName c = true := by
  simp only [startsName, continuesName, Char.isAlphanum, Bool.or_eq_true] at h ⊢
  exact h.imp_left .inl

/-- Whether a text is a name. -/
def isName : List Char → Bool
  | [] => false
  | c :: tail => startsName c && tail.all continuesName

theorem isName_cons_iff {c : Char} {tail : List Char} :
    isName (c :: tail) = true ↔ startsName c = true ∧ ∀ d ∈ tail, continuesName d = true := by
  rw [isName, Bool.and_eq_true, List.all_eq_true]

/-- All characters of a name continue names. -/
theorem continuesName_of_isName {w : List Char} (h : isName w = true) :
    ∀ d ∈ w, continuesName d = true := by
  cases w with
  | nil => nofun
  | cons c tail =>
    obtain ⟨hc, htail⟩ := isName_cons_iff.mp h
    exact List.forall_mem_cons.mpr ⟨continuesName_of_startsName hc, htail⟩

/-- The characters that start a name. -/
def nameStarters : List Char := "ABCDEFGHIJKLMNOPQRSTUVWXYZ_abcdefghijklmnopqrstuvwxyz".toList

/-- The characters that start names are those of a list. -/
theorem mem_nameStarters {c : Char} (h : startsName c = true) : c ∈ nameStarters := by
  have hlt : c.toNat < 128 := by
    rcases Bool.or_eq_true_iff.mp h with halpha | hbar
    · -- the letters end with the small one for `z`
      have hz : c.val ≤ 'z'.val := by
        rcases Bool.or_eq_true_iff.mp halpha with hupper | hlower
        · exact UInt32.le_trans (of_decide_eq_true hupper).2 (by decide)
        · exact of_decide_eq_true (Bool.and_eq_true_iff.mp hlower).2
      exact Nat.lt_of_le_of_lt (UInt32.le_iff_toNat_le.mp hz) (by decide)
    · rw [of_decide_eq_true hbar]
      decide
  -- below this bound the characters are looked at one by one
  have hascii : ∀ n < 128, startsName (Char.ofNat n) = true → Char.ofNat n ∈ nameStarters := by
    decide +kernel
  rw [← Char.ofNat_toNat c] at h ⊢
  exact hascii _ hlt h

/-- The rules that are neither for strings nor for words describe no text that starts like a
    name. -/
theorem rules_avoid_nameStarters :
    ∀ r ∈ rules, isString r.kind = true ∨ isWord r.kind = true ∨
      (nameStarters.all fun c => (r.pattern.after c).isNever) = true := by
  decide +kernel

/-- The pattern for names describes the names. -/
theorem matches_name_iff {w : List Char} :
    (Pattern.seq (.one startsName) (.many (.one continuesName))).Matches w ↔ isName w = true := by
  rw [Pattern.matches_seq_iff]
  constructor
  · rintro ⟨u, v, hu, hv, rfl⟩
    obtain ⟨c, hc, rfl⟩ := Pattern.matches_one_iff.mp hu
    exact isName_cons_iff.mpr ⟨hc, Pattern.matches_many_one_iff.mp hv⟩
  · intro h
    cases w with
    | nil => cases h
    | cons c tail =>
      obtain ⟨hc, htail⟩ := isName_cons_iff.mp h
      exact ⟨[c], tail, .one hc, Pattern.matches_many_one_iff.mpr htail, rfl⟩

/-- The words in a table are names. -/
private theorem isName_of_mem_texts {texts : List String} {w : List Char}
    (htexts : texts.all (fun t => isName t.toList) = true) (hw : String.ofList w ∈ texts) :
    isName w = true := by
  have := List.all_eq_true.mp htexts _ hw
  rwa [String.toList_ofList] at this

/-- What a rule for words describes is a name. -/
theorem isName_of_matches {r : Rule Kind} (hr : r ∈ rules) (hkind : isWord r.kind = true)
    {w : List Char} (h : r.pattern.Matches w) : isName w = true := by
  revert r
  simp only [rules, List.forall_mem_cons, isWord, Pattern.matches_oneOfTexts_iff, matches_name_iff,
    Pattern.matches_text_iff, Bool.false_eq_true, false_implies, true_and, forall_true_left,
    List.not_mem_nil, implies_true, and_true]
  refine ⟨fun hw => ?_, fun hw => ?_, isName_of_mem_texts (by decide),
    isName_of_mem_texts (by decide), isName_of_mem_texts (by decide),
    isName_of_mem_texts (by decide), isName_of_mem_texts (by decide),
    isName_of_mem_texts (by decide), id⟩
  · rw [hw]
    decide
  · rw [hw]
    decide

/-- Of the rules, the tables decide about a name, and the pattern of names takes the others. -/
theorem selected_of_isName {w : List Char} (h : isName w = true) :
    Grammar.selected rules w = some (wordKind (String.ofList w)) := by
  -- no rule before those for words describes a name
  have hskip : ∀ r ∈ rules, isString r.kind = false → isWord r.kind = false →
      ¬ r.pattern.Matches w := by
    intro r hr hstring hword
    cases w with
    | nil => cases h
    | cons c tail =>
      rcases rules_avoid_nameStarters r hr with hquotes | hwords | hnever
      · simp [hstring] at hquotes
      · simp [hword] at hwords
      · have hc := mem_nameStarters (isName_cons_iff.mp h).1
        exact Pattern.not_matches_cons_of_isNever (List.all_eq_true.mp hnever c hc)
  simp only [rules, List.forall_mem_cons, isString, isWord, forall_true_left, Bool.true_eq_false,
    false_implies, true_and] at hskip
  have heq : ∀ t : String, w = t.toList ↔ String.ofList w = t := by
    intro t
    rw [← String.toList_inj, String.toList_ofList]
  simp only [rules, Grammar.selected_cons, hskip, h, if_false, if_true, wordKind, matches_name_iff,
    Pattern.matches_text_iff, Pattern.matches_oneOfTexts_iff, heq, apply_ite some]

/-- A text is recognized if a rule describes a beginning of it. -/
theorem exists_kind_of_next {rest : List Char} {l : Lexeme Kind} (h : grammar.Next rest l)
    {r : Rule Kind} (hr : r ∈ rules) {w : List Char} (hne : w ≠ []) (hpre : w <+: rest)
    (hmatches : r.pattern.Matches w) : ∃ kind, l.kind = some kind := by
  cases h with
  | unknown _ hunrecognized => exact absurd hmatches (hunrecognized r hr w hne hpre)
  | longest => exact ⟨_, rfl⟩

/-- A lexeme that starts like a name and is no string literal is the whole word at its place, and
    the tables decide about its kind. -/
theorem word_of_next {c : Char} {tail : List Char} {l : Lexeme Kind}
    (h : grammar.Next (c :: tail) l) (hc : startsName c = true)
    (hstring : ∀ kind, l.kind = some kind → isString kind = false) :
    l.text = (c :: tail).takeWhile continuesName ∧
      l.kind = some (wordKind (String.ofList l.text)) := by
  generalize hrun : (c :: tail).takeWhile continuesName = run
  have hname : isName run = true := by
    rw [← hrun, List.takeWhile_cons_of_pos (continuesName_of_startsName hc)]
    exact isName_cons_iff.mpr ⟨hc, fun d hd => List.mem_takeWhile_imp hd⟩
  have hnameRule : ⟨.name, .seq (.one startsName) (.many (.one continuesName))⟩ ∈ rules := by
    simp [rules]
  have hrunPre : run <+: c :: tail := hrun ▸ List.takeWhile_prefix _
  have hrunNe : run ≠ [] := by
    rintro rfl
    cases hname
  -- the rule for names describes the run, so the lexeme is not unknown
  obtain ⟨kind, hkind⟩ :=
    exists_kind_of_next h hnameRule hrunNe hrunPre (matches_name_iff.mpr hname)
  obtain ⟨hselected, hpre, hmaximal⟩ := selected_of_next h hkind (hstring kind hkind)
  -- the rule that counts is one for words
  obtain ⟨r, hr, rfl, hmatches⟩ := Grammar.exists_rule_of_selected hselected
  have hword : isWord r.kind = true := by
    rcases rules_avoid_nameStarters r hr with hquotes | hword | hnever
    · rw [hstring _ hkind] at hquotes
      cases hquotes
    · exact hword
    · obtain ⟨d, rest, htext⟩ := List.exists_cons_of_ne_nil h.text_ne_nil
      obtain ⟨rfl, -⟩ := List.cons_prefix_cons.mp (htext ▸ hpre)
      have hnone := Pattern.not_matches_cons_of_isNever (s := rest)
        (List.all_eq_true.mp hnever d (mem_nameStarters hc))
      exact absurd (htext ▸ hmatches) hnone
  -- so it takes the whole run, and nothing else
  have hsame : l.text = run := by
    obtain ⟨back, hback⟩ := hpre
    rw [← hback, List.takeWhile_append_of_pos
      (continuesName_of_isName (isName_of_matches hr hword hmatches))] at hrun
    have hlen : run.length ≤ l.text.length := Nat.not_lt.mp fun hlt =>
      hmaximal _ hnameRule run hrunPre hlt (matches_name_iff.mpr hname)
    have hnil : back.takeWhile continuesName = [] := by
      rw [← hrun, List.length_append] at hlen
      exact List.length_eq_zero_iff.mp (by omega)
    rw [← hrun, hnil, List.append_nil]
  refine ⟨hsame, ?_⟩
  rw [hkind, ← hselected, hsame]
  exact selected_of_isName hname

/-! ## String literals -/

/-- The form of a literal on one line that a quote opens. -/
def quoteForm (quote : Char) : StringForm := if quote = '\'' then .single else .double

/-- The letters that may stand before the quote of a string literal. -/
def stringLetters : List Char := "rRbBuUfF".toList

/-- There is a rule for strings for each of the two quotes. -/
theorem pattern_of_isString {r : Rule Kind} (hr : r ∈ rules) (h : isString r.kind = true) :
    ∃ quote, (quote = '\'' ∨ quote = '"') ∧ r.kind = .string (quoteForm quote) ∧
      ∃ t, t.toList = [quote] ∧ r.pattern = opening t := by
  revert r
  simp only [rules, List.forall_mem_cons, isString, Bool.false_eq_true, false_implies, true_and,
    forall_true_left, List.not_mem_nil, implies_true, and_true]
  exact ⟨⟨'\'', .inl rfl, rfl, "'", rfl, rfl⟩, ⟨'"', .inr rfl, rfl, "\"", rfl, rfl⟩⟩

/-- An opening is up to two letters and a quote. -/
theorem exists_letters_of_matches_opening {t : String} {quote : Char} (ht : t.toList = [quote])
    {o : List Char} (h : (opening t).Matches o) :
    ∃ letters, o = letters ++ [quote] ∧ letters.length ≤ 2 ∧ ∀ c ∈ letters, c ∈ stringLetters := by
  -- a part of the prefix is one letter or nothing
  have hletter : ∀ u, (Pattern.optional (.anyOf "rRbBuUfF")).Matches u →
      u.length ≤ 1 ∧ ∀ c ∈ u, c ∈ stringLetters := by
    intro u hu
    rcases Pattern.matches_either_iff.mp hu with hone | hnothing
    · obtain ⟨c, hc, rfl⟩ := Pattern.matches_one_iff.mp hone
      exact ⟨Nat.le_refl 1, List.forall_mem_singleton.mpr (List.contains_iff_mem.mp hc)⟩
    · rw [Pattern.matches_nothing_iff.mp hnothing]
      exact ⟨Nat.zero_le 1, nofun⟩
  obtain ⟨first, more, hfirst, hmore, rfl⟩ := Pattern.matches_seq_iff.mp h
  obtain ⟨second, last, hsecond, hlast, rfl⟩ := Pattern.matches_seq_iff.mp hmore
  obtain ⟨q, none, hq, hnone, rfl⟩ := Pattern.matches_seq_iff.mp hlast
  rw [Pattern.matches_text_iff, ht] at hq
  rw [hq, Pattern.matches_nothing_iff.mp hnone]
  refine ⟨first ++ second, by simp, ?_, ?_⟩
  · rw [List.length_append]
    exact Nat.add_le_add (hletter first hfirst).1 (hletter second hsecond).1
  · intro c hc
    exact (List.mem_append.mp hc).elim ((hletter first hfirst).2 c) ((hletter second hsecond).2 c)

/-- A string literal is an opening with what its extent takes of the text behind it. -/
theorem opening_of_next {rest : List Char} {l : Lexeme Kind} {kind : Kind}
    (h : grammar.Next rest l) (hkind : l.kind = some kind) (hstring : isString kind = true) :
    ∃ letters quote behind, rest = letters ++ quote :: behind ∧ letters.length ≤ 2 ∧
      (∀ c ∈ letters, c ∈ stringLetters) ∧ (quote = '\'' ∨ quote = '"') ∧
      l.kind = some (.string ((quoteForm quote).extent quote behind).1) ∧
      l.text = letters ++ quote :: behind.take ((quoteForm quote).extent quote behind).2 := by
  cases h with
  | unknown => cases hkind
  | @longest found behind base hsplit _ hselected _ =>
    have hbase : isString base = true := by
      have hlast : (extend base found behind).1 = kind := Option.some.inj hkind
      rw [← isString_extend base found behind, hlast, hstring]
    obtain ⟨r, hr, rfl, hmatches⟩ := Grammar.exists_rule_of_selected hselected
    obtain ⟨quote, hquote, hform, t, ht, hpattern⟩ := pattern_of_isString hr hbase
    rw [hpattern] at hmatches
    obtain ⟨letters, rfl, hlength, hletters⟩ := exists_letters_of_matches_opening ht hmatches
    -- how far the string goes is told by its quote and what is behind it
    have hextend : grammar.extend r.kind (letters ++ [quote]) behind =
        (.string ((quoteForm quote).extent quote behind).1,
          ((quoteForm quote).extent quote behind).2) := by
      rw [hform]
      simp only [grammar, extend, List.getLast?_concat, Option.getD_some]
    refine ⟨letters, quote, behind, by simp [hsplit], hlength, hletters, hquote, ?_, ?_⟩
    · simp only [hextend]
    · simp only [hextend, List.append_assoc, List.singleton_append]

/-- A string literal has a quote in it. -/
theorem quote_mem_of_next {rest : List Char} {l : Lexeme Kind} {kind : Kind}
    (h : grammar.Next rest l) (hkind : l.kind = some kind) (hstring : isString kind = true) :
    '\'' ∈ l.text ∨ '"' ∈ l.text := by
  obtain ⟨letters, quote, behind, -, -, -, hquote, -, htext⟩ := opening_of_next h hkind hstring
  rw [htext]
  rcases hquote with rfl | rfl
  · exact .inl (by simp)
  · exact .inr (by simp)

/-- The categories of string literals are those of no other kind. -/
theorem category_mem_stringCategories_iff {kind : Option Kind} :
    category kind ∈ stringCategories ↔ ∃ form, kind = some (.string form) := by
  constructor
  · intro h
    rcases kind with _ | kind
    · exact absurd h (by decide +kernel)
    · cases kind with
      | string form => exact ⟨form, rfl⟩
      | _ => exact absurd h (by decide +kernel)
  · rintro ⟨form, rfl⟩
    cases form <;> simp [category, stringCategories]

/-- What is given the category of a string literal is one. -/
theorem exists_form_of_category {front : List (Lexeme Kind)} {l : Lexeme Kind}
    (h : (fragmentOf (pendingAfter front) l).category ∈ stringCategories) :
    ∃ form, l.kind = some (.string form) := by
  have hdefined : Category.ofKey "Name.Function" ∉ stringCategories ∧
      Category.ofKey "Name.Class" ∉ stringCategories := by
    decide +kernel
  by_cases hname : isNameLike l.kind = true
  · rw [fragmentOf, if_pos hname] at h
    rcases pendingAfter_cases front with hpending | hpending | hpending <;> rw [hpending] at h
    · exact category_mem_stringCategories_iff.mp h
    · exact absurd h hdefined.1
    · exact absurd h hdefined.2
  · rw [fragmentOf, if_neg hname] at h
    exact category_mem_stringCategories_iff.mp h

/-! ## Kinds that can be told from their texts -/

theorem isWord_wordKind (word : String) : isWord (wordKind word) = true := by
  unfold wordKind
  split_ifs <;> rfl

/-- Only `def` is the word for functions. -/
theorem wordKind_eq_function_iff {word : String} : wordKind word = .function ↔ word = "def" := by
  unfold wordKind
  split_ifs <;> simp_all

/-- Only `class` is the word for classes. -/
theorem wordKind_eq_classWord_iff {word : String} : wordKind word = .classWord ↔ word = "class" := by
  unfold wordKind
  split_ifs <;> simp_all

/-- A lexeme of a kind of words is a name, and the tables give it this kind. -/
theorem isName_of_next {rest : List Char} {l : Lexeme Kind} {kind : Kind}
    (h : grammar.Next rest l) (hkind : l.kind = some kind) (hword : isWord kind = true) :
    isName l.text = true ∧ kind = wordKind (String.ofList l.text) := by
  have hstring : isString kind = false := by
    cases kind with
    | string form => cases hword
    | _ => rfl
  obtain ⟨hselected, -, -⟩ := selected_of_next h hkind hstring
  obtain ⟨r, hr, rfl, hmatches⟩ := Grammar.exists_rule_of_selected hselected
  have hname := isName_of_matches hr hword hmatches
  exact ⟨hname, Option.some.inj (hselected.symm.trans (selected_of_isName hname))⟩

/-- A lexeme that is a name is of the kind that the tables give it. -/
theorem kind_of_isName {rest : List Char} {l : Lexeme Kind} (h : grammar.Next rest l)
    (hname : isName l.text = true) : l.kind = some (wordKind (String.ofList l.text)) := by
  obtain ⟨back, rfl⟩ := h.isPrefixOf
  obtain ⟨c, tail, htext⟩ := List.exists_cons_of_ne_nil h.text_ne_nil
  have hstring : ∀ kind, l.kind = some kind → isString kind = false := by
    intro kind hkind
    rw [← Bool.not_eq_true]
    intro hstring
    -- a name has no quote in it
    have hcontinues := continuesName_of_isName hname
    rcases quote_mem_of_next h hkind hstring with hmem | hmem
    · exact absurd (hcontinues _ hmem) (by decide)
    · exact absurd (hcontinues _ hmem) (by decide)
  have hnext : grammar.Next (c :: (tail ++ back)) l := by rwa [← List.cons_append, ← htext]
  rw [htext] at hname
  exact (word_of_next hnext (isName_cons_iff.mp hname).1 hstring).2

/-- Where the tables give a kind to a single word, the lexemes of this kind have that text. -/
theorem kind_eq_iff_of_wordKind {kind : Kind} {word : String}
    (htable : ∀ w, wordKind w = kind ↔ w = word) (hname : isName word.toList = true)
    {rest : List Char} {l : Lexeme Kind} (h : grammar.Next rest l) :
    l.kind = some kind ↔ String.ofList l.text = word := by
  have hword : isWord kind = true := (htable word).mpr rfl ▸ isWord_wordKind word
  constructor
  · intro hkind
    exact (htable _).mp (isName_of_next h hkind hword).2.symm
  · intro htext
    have hnameText : isName l.text = true := by
      rwa [← String.toList_ofList (l := l.text), htext]
    rw [kind_of_isName h hnameText, (htable _).mpr htext]

/-- A lexeme is the word for functions exactly if its text is. -/
theorem kind_eq_function_iff {rest : List Char} {l : Lexeme Kind} (h : grammar.Next rest l) :
    l.kind = some .function ↔ String.ofList l.text = "def" :=
  kind_eq_iff_of_wordKind (fun _ => wordKind_eq_function_iff) (by decide) h

/-- A lexeme is the word for classes exactly if its text is. -/
theorem kind_eq_classWord_iff {rest : List Char} {l : Lexeme Kind} (h : grammar.Next rest l) :
    l.kind = some .classWord ↔ String.ofList l.text = "class" :=
  kind_eq_iff_of_wordKind (fun _ => wordKind_eq_classWord_iff) (by decide) h

/-- Whether a character is a blank. -/
def isBlankChar (c : Char) : Bool := " \t\x0c".toList.contains c

/-- No rule but the one for blanks describes a text that starts with a blank. -/
private theorem rules_avoid_blanks :
    ∀ r ∈ rules, r.kind = .blank ∨
      (" \t\x0c".toList.all fun c => (r.pattern.after c).isNever) = true := by
  decide

/-- The rule for blanks describes runs of them. -/
theorem matches_blanks_iff {w : List Char} :
    (Pattern.many1 (.anyOf " \t\x0c")).Matches w ↔ w ≠ [] ∧ w.all isBlankChar = true := by
  have hmany : ∀ v, (Pattern.many (.anyOf " \t\x0c")).Matches v ↔ v.all isBlankChar = true :=
    fun v => Pattern.matches_many_one_iff.trans List.all_eq_true.symm
  rw [Pattern.many1, Pattern.matches_seq_iff]
  constructor
  · rintro ⟨u, v, hu, hv, rfl⟩
    obtain ⟨c, hc, rfl⟩ := Pattern.matches_one_iff.mp hu
    refine ⟨by simp, ?_⟩
    rw [List.all_append, (hmany v).mp hv, Bool.and_true, List.all_cons, List.all_nil, Bool.and_true]
    exact hc
  · rintro ⟨hne, hall⟩
    obtain ⟨c, tail, rfl⟩ := List.exists_cons_of_ne_nil hne
    rw [List.all_cons, Bool.and_eq_true] at hall
    exact ⟨[c], tail, .one hall.1, (hmany tail).mpr hall.2, rfl⟩

/-- The blank lexemes are those that are made of blanks. -/
theorem kind_eq_blank_iff {rest : List Char} {l : Lexeme Kind} (h : grammar.Next rest l) :
    l.kind = some .blank ↔ l.text.all isBlankChar = true := by
  have hpattern : ∀ r ∈ rules, r.kind = .blank → r.pattern = .many1 (.anyOf " \t\x0c") := by
    simp [rules]
  constructor
  · intro hkind
    obtain ⟨hselected, -, -⟩ := selected_of_next h hkind rfl
    obtain ⟨r, hr, hblank, hmatches⟩ := Grammar.exists_rule_of_selected hselected
    rw [hpattern r hr hblank] at hmatches
    exact (matches_blanks_iff.mp hmatches).2
  · intro hall
    have hrule : ⟨.blank, .many1 (.anyOf " \t\x0c")⟩ ∈ rules := by simp [rules]
    -- the rule for blanks describes the whole lexeme, and no other one starts with a blank
    have hmatches := matches_blanks_iff.mpr ⟨h.text_ne_nil, hall⟩
    obtain ⟨kind, hkind⟩ := exists_kind_of_next h hrule h.text_ne_nil h.isPrefixOf hmatches
    have hstring : isString kind = false := by
      rw [← Bool.not_eq_true]
      intro hstring
      -- a quote is no blank
      rcases quote_mem_of_next h hkind hstring with hmem | hmem
      · exact absurd (List.all_eq_true.mp hall _ hmem) (by decide)
      · exact absurd (List.all_eq_true.mp hall _ hmem) (by decide)
    obtain ⟨hselected, -, -⟩ := selected_of_next h hkind hstring
    obtain ⟨r, hr, rfl, hmatches⟩ := Grammar.exists_rule_of_selected hselected
    obtain ⟨c, tail, htext⟩ := List.exists_cons_of_ne_nil h.text_ne_nil
    rw [htext] at hall hmatches
    rw [List.all_cons, Bool.and_eq_true] at hall
    rcases rules_avoid_blanks r hr with hblank | hnever
    · rw [hkind, hblank]
    · exact absurd hmatches (Pattern.not_matches_cons_of_isNever
        (List.all_eq_true.mp hnever c (List.contains_iff_mem.mp hall.1)))

end Tinct.Lexer.Python
