import Tinct.Lexer.JsonText
import Tinct.Proofs.JsonGrammar
import Tinct.Proofs.LongestMatch

/-!
# JSON lexemes

The lexer knows no grammar, only the longest lexeme at each place.  At a blank this is the whole run
of blanks, at a structural character nothing more, at a constant or a number everything up to a
blank or a structural character, and at a string everything up to its closing quote.

## Key results

- `next_of_kindsFrom`: the next lexeme, from the rules that know its first character
- `exists_mark_of_matches`, `exists_run_of_string`, `exists_run_of_openString`: what the rules for
  marks and strings describe
- `next_blank`, `next_mark`, `next_constant`, `next_number`, `next_quoted`: the next lexeme where
  the text is spelled as the grammar of documents says
-/

namespace Tinct.Lexer.JsonText

open Json

/-! ## Rules by their first character -/

/-- The kinds of the rules that know the character at the start of a text. -/
def kindsFrom (c : Char) : List Kind :=
  (grammar.rules.filter fun r => !(r.pattern.after c).isNever).map (·.kind)

/-- A rule that describes a text knows its first character. -/
theorem kind_mem_kindsFrom {r : Rule Kind} (hr : r ∈ grammar.rules) {c : Char} {tail : List Char}
    (h : r.pattern.Matches (c :: tail)) : r.kind ∈ kindsFrom c := by
  refine List.mem_map.mpr ⟨r, List.mem_filter.mpr ⟨hr, ?_⟩, rfl⟩
  cases hnever : (r.pattern.after c).isNever with
  | false => rfl
  | true => exact absurd h (Pattern.not_matches_cons_of_isNever hnever)

/-- Of the rules that know its first character, one describes the lexeme, all that do are of its
    kind, and none describes more of the text. -/
theorem next_of_kindsFrom {c : Char} {tail behind : List Char} {kind : Kind}
    (hrule : ∃ r ∈ grammar.rules, r.pattern.Matches (c :: tail))
    (hkind : ∀ r ∈ grammar.rules, r.kind ∈ kindsFrom c → r.pattern.Matches (c :: tail) →
      r.kind = kind)
    (hlongest : ∀ r ∈ grammar.rules, r.kind ∈ kindsFrom c → ∀ v, v <+: c :: tail ++ behind →
      r.pattern.Matches v → v.length ≤ (c :: tail).length) :
    grammar.Next (c :: tail ++ behind) ⟨some kind, c :: tail⟩ := by
  -- all rules that describe the lexeme agree about its kind
  have hselected : Grammar.selected grammar.rules (c :: tail) = some kind :=
    Grammar.selected_of_forall hrule fun r hr h => hkind r hr (kind_mem_kindsFrom hr h) h
  -- a longer one would start with the same character
  have hmaximal : ∀ r ∈ grammar.rules, ∀ v, v <+: c :: tail ++ behind →
      (c :: tail).length < v.length → ¬ r.pattern.Matches v := by
    intro r hr v hv hlen h
    cases v with
    | nil => cases hlen
    | cons d v =>
      obtain ⟨rfl, -⟩ := List.cons_prefix_cons.mp hv
      exact absurd (hlongest r hr (kind_mem_kindsFrom hr h) _ hv h) (Nat.not_le.mpr hlen)
  have hnext := Grammar.Next.longest rfl (List.cons_ne_nil c tail) hselected hmaximal
  -- the rules of JSON do not reach further than they match
  rwa [show grammar.extend kind (c :: tail) behind = (kind, 0) from rfl, List.take_zero,
    List.append_nil] at hnext

/-! ## Rules by their kind -/

/-- What the rules for marks describe is a single mark. -/
theorem exists_mark_of_matches {r : Rule Kind} (hr : r ∈ grammar.rules)
    (hkind : r.kind = .colon ∨ r.kind = .punctuation) {w : List Char} (h : r.pattern.Matches w) :
    ∃ c ∈ Token.marks, w = [c] := by
  have hpattern : ∀ r ∈ grammar.rules, r.kind = .colon ∨ r.kind = .punctuation →
      r.pattern = .text ":" ∨ r.pattern = .anyOf "\x7b\x7d[]," := by simp [grammar]
  rcases hpattern r hr hkind with hr | hr
  · rw [hr, Pattern.matches_text_iff] at h
    exact ⟨':', by decide, h⟩
  · rw [hr] at h
    obtain ⟨c, hc, rfl⟩ := Pattern.matches_one_iff.mp h
    have hmarks : ∀ c ∈ "\x7b\x7d[],".toList, c ∈ Token.marks := forall_mem_of_all (by decide)
    exact ⟨c, hmarks c (List.contains_iff_mem.mp hc), rfl⟩

/-- What the rule for strings describes is a run of characters in quotes. -/
theorem exists_run_of_string {r : Rule Kind} (hr : r ∈ grammar.rules) (hkind : r.kind = .string)
    {w : List Char} (h : r.pattern.Matches w) :
    ∃ run, w = '"' :: (run ++ ['"']) ∧ stringContent.Matches run := by
  have hpattern : ∀ r ∈ grammar.rules, r.kind = .string →
      r.pattern = .inOrder [.text "\"", stringContent, .text "\""] := by simp [grammar]
  rw [hpattern r hr hkind] at h
  exact Spelling.matches_quotes_iff.mp h

/-- What the rule for open strings describes has no second quote. -/
theorem exists_run_of_openString {r : Rule Kind} (hr : r ∈ grammar.rules)
    (hkind : r.kind = .openString) {w : List Char} (h : r.pattern.Matches w) :
    ∃ run, w = '"' :: run ∧ stringContent.Matches run := by
  have hpattern : ∀ r ∈ grammar.rules, r.kind = .openString →
      r.pattern = .seq (.text "\"") stringContent := by simp [grammar]
  rw [hpattern r hr hkind] at h
  obtain ⟨front, run, hfront, hrun, rfl⟩ := Pattern.matches_seq_iff.mp h
  obtain rfl := Pattern.matches_text_iff.mp hfront
  exact ⟨run, rfl, hrun⟩

/-- A quote and any run of characters of strings is an open string. -/
theorem matches_openString {run : List Char} (h : stringContent.Matches run) :
    ∃ r ∈ grammar.rules, r.pattern.Matches ('"' :: run) :=
  ⟨⟨.openString, .seq (.text "\"") stringContent⟩, by simp [grammar],
    .seq (Pattern.matches_text_iff.mpr rfl) h⟩

/-! ## Blanks and marks -/

/-- Only blanks start with a blank. -/
theorem kindsFrom_space {c : Char} (hc : isSpace c = true) : kindsFrom c = [.blank] := by
  have hkinds : ∀ c ∈ Token.spaces, kindsFrom c = [.blank] := forall_mem_of_all (by decide)
  exact hkinds c (Token.mem_spaces_iff.mpr hc)

/-- A run of blanks is one lexeme if no blank comes behind it. -/
theorem next_blank {c : Char} {run behind : List Char} (hc : isSpace c = true)
    (hrun : ∀ d ∈ run, isSpace d = true) (hend : ∀ d, behind.head? = some d → isSpace d = false) :
    grammar.Next (c :: run ++ behind) ⟨some .blank, c :: run⟩ := by
  have hkinds := kindsFrom_space hc
  have hpattern : ∀ r ∈ grammar.rules, r.kind = .blank →
      r.pattern = .many1 (.anyOf " \t\r\n") := by simp [grammar]
  -- the characters of the rule are those that are blank for the grammar
  have hspace : ∀ d : Char, " \t\r\n".toList.contains d = isSpace d := by
    intro d
    rw [Bool.eq_iff_iff]
    simp [isSpace, or_assoc, or_comm, or_left_comm]
  refine next_of_kindsFrom ⟨⟨.blank, .many1 (.anyOf " \t\r\n")⟩, List.mem_cons_self, ?_⟩ ?_ ?_
  · refine .seq (.one (by rw [hspace, hc])) (Pattern.matches_many_one_iff.mpr fun d hd => ?_)
    rw [hspace, hrun d hd]
  · intro r hr hkind _
    rw [hkinds] at hkind
    exact List.mem_singleton.mp hkind
  · intro r hr hkind v hv h
    rw [hkinds, List.mem_singleton] at hkind
    rw [hpattern r hr hkind] at h
    refine Grammar.length_le_of_not_allows h hv fun d hd => ?_
    simp only [Pattern.many1, Pattern.allows, Pattern.allows_anyOf, hspace, hend d hd, Bool.or_self]

/-- A mark is a lexeme of its own. -/
theorem next_mark {c : Char} (hc : c ∈ Token.marks) (behind : List Char) :
    grammar.Next ([c] ++ behind) ⟨some (if c = ':' then .colon else .punctuation), [c]⟩ := by
  have hkinds : ∀ c ∈ Token.marks,
      kindsFrom c = [if c = ':' then .colon else .punctuation] := forall_mem_of_all (by decide)
  have hkinds := hkinds c hc
  have hrules : ∀ c ∈ Token.marks, ∃ r ∈ grammar.rules, r.pattern.Matches [c] :=
    forall_mem_of_all (by decide)
  refine next_of_kindsFrom (hrules c hc) ?_ ?_
  · intro r hr hkind _
    rw [hkinds] at hkind
    exact List.mem_singleton.mp hkind
  · intro r hr hkind v hv h
    -- the one rule for the character describes single marks
    have hmark : r.kind = .colon ∨ r.kind = .punctuation := by
      rw [hkinds, List.mem_singleton] at hkind
      rw [hkind]
      by_cases hcolon : c = ':'
      · exact .inl (if_pos hcolon)
      · exact .inr (if_neg hcolon)
    obtain ⟨d, -, rfl⟩ := exists_mark_of_matches hr hmark h
    exact Nat.le_refl 1

/-! ## Constants and numbers -/

/-- What ends a constant or a number. -/
def EndsWord (behind : List Char) : Prop :=
  ∀ d, behind.head? = some d → d ∈ Token.spaces ++ Token.marks

/-- No rule for words and numbers reaches beyond the end of a word. -/
private theorem length_le_of_endsWord {r : Rule Kind} (hr : r ∈ grammar.rules)
    (hkind : r.kind ∈ [.integer, .float, .constant]) {w behind v : List Char}
    (hbehind : EndsWord behind) (hv : v <+: w ++ behind) (h : r.pattern.Matches v) :
    v.length ≤ w.length := by
  have hends : ∀ r ∈ grammar.rules, r.kind ∈ [.integer, .float, .constant] →
      ((Token.spaces ++ Token.marks).all fun d => decide (r.pattern.allows d = false)) = true := by
    decide
  exact Grammar.length_le_of_not_allows h hv fun d hd =>
    forall_mem_of_all (hends r hr hkind) d (hbehind d hd)

/-- A constant is a lexeme if its word ends there. -/
theorem next_constant {word behind : List Char} (hword : word ∈ Spelling.constants)
    (hbehind : EndsWord behind) : grammar.Next (word ++ behind) ⟨some .constant, word⟩ := by
  -- the first letter tells the rule, and there are three words only
  have hkinds : ∀ word ∈ Spelling.constants, word.head?.map kindsFrom = some [.constant] := by
    decide
  have hrules : ∀ word ∈ Spelling.constants, ∃ r ∈ grammar.rules, r.pattern.Matches word := by
    decide
  cases word with
  | nil => cases hkinds [] hword
  | cons c tail =>
    have hkinds : kindsFrom c = [.constant] := Option.some.inj (hkinds _ hword)
    refine next_of_kindsFrom (hrules _ hword) ?_ ?_
    · intro r hr hkind _
      rw [hkinds] at hkind
      exact List.mem_singleton.mp hkind
    · intro r hr hkind v hv h
      rw [hkinds, List.mem_singleton] at hkind
      exact length_le_of_endsWord hr (by simp [hkind]) hbehind hv h

/-- The pattern of numbers with a fraction or an exponent. -/
def floatPattern : Pattern :=
  .either (.inOrder [wholePart, .text ".", .many1 digit, .optional exponentPart])
    (.seq wholePart exponentPart)

open Pattern in
/-- A number is one of the integers of the lexer or one of its floats. -/
theorem matches_wholePart_or_floatPattern {digits : List Char}
    (h : Spelling.number.Matches digits) :
    wholePart.Matches digits ∨ floatPattern.Matches digits := by
  obtain ⟨sign, _, hsign, hunsigned, rfl⟩ := matches_seq_iff.mp h
  obtain ⟨whole, _, hwhole, hplaces, rfl⟩ := matches_seq_iff.mp hunsigned
  obtain ⟨fraction, _, hfraction, hpower, rfl⟩ := matches_seq_iff.mp hplaces
  obtain ⟨exponent, _, hexponent, hnil, rfl⟩ := matches_seq_iff.mp hpower
  obtain rfl := matches_nothing_iff.mp hnil
  have hint : wholePart.Matches (sign ++ whole) := .seq hsign hwhole
  rcases matches_either_iff.mp hfraction with hfraction | hempty
  · -- with a fraction, and perhaps an exponent
    obtain ⟨point, places, hpoint, hdigits, rfl⟩ := matches_seq_iff.mp hfraction
    refine .inr (.left ?_)
    rw [List.append_assoc, ← List.append_assoc sign]
    exact .seq hint (.seq hpoint (.seq hdigits (.seq hexponent .nothing)))
  · obtain rfl := matches_nothing_iff.mp hempty
    rcases matches_either_iff.mp hexponent with hexponent | hempty
    · -- with an exponent only
      refine .inr (.right ?_)
      rw [List.append_nil, List.nil_append, ← List.append_assoc]
      exact .seq hint hexponent
    · obtain rfl := matches_nothing_iff.mp hempty
      exact .inl (by simpa using hint)

/-- The digits before the point have no point and no exponent. -/
theorem isFraction_of_wholePart {digits : List Char} (h : wholePart.Matches digits) :
    Piece.isFraction digits = false := by
  have hallows : ∀ c ∈ ['.', 'e', 'E'], wholePart.allows c = false :=
    forall_mem_of_all (by decide)
  rw [Piece.isFraction, List.any_eq_false]
  intro c hc hmark
  have hc' := Pattern.allows_of_mem h hc
  rw [hallows c (by simpa [or_assoc] using hmark)] at hc'
  cases hc'

open Pattern in
/-- A number of the other pattern has a point or an exponent. -/
theorem isFraction_of_floatPattern {digits : List Char} (h : floatPattern.Matches digits) :
    Piece.isFraction digits = true := by
  have hmark : ∃ c ∈ ['.', 'e', 'E'], c ∈ digits := by
    rcases matches_either_iff.mp h with h | h
    · obtain ⟨whole, _, -, hbehind, rfl⟩ := matches_seq_iff.mp h
      obtain ⟨point, _, hpoint, -, rfl⟩ := matches_seq_iff.mp hbehind
      exact ⟨'.', by simp, by simp [matches_text_iff.mp hpoint]⟩
    · obtain ⟨whole, _, -, hbehind, rfl⟩ := matches_seq_iff.mp h
      obtain ⟨letter, _, hletter, -, rfl⟩ := matches_seq_iff.mp hbehind
      obtain ⟨c, hc, rfl⟩ := matches_one_iff.mp hletter
      exact ⟨c, List.mem_cons_of_mem _ (by simpa using hc), by simp⟩
  obtain ⟨c, hc, hmem⟩ := hmark
  exact List.any_eq_true.mpr ⟨c, hmem, by simpa [or_assoc] using hc⟩

open Pattern in
/-- A number starts with a minus sign or a digit. -/
theorem exists_cons_of_wholePart {digits : List Char} (h : wholePart.Matches digits) :
    ∃ c tail, digits = c :: tail ∧ c ∈ "-0123456789".toList := by
  obtain ⟨sign, whole, hsign, hwhole, rfl⟩ := matches_seq_iff.mp h
  rcases matches_either_iff.mp hsign with hminus | hempty
  · obtain rfl := matches_text_iff.mp hminus
    exact ⟨'-', whole, rfl, by simp⟩
  · obtain rfl := matches_nothing_iff.mp hempty
    rcases matches_either_iff.mp hwhole with hzero | hdigits
    · obtain rfl := matches_text_iff.mp hzero
      exact ⟨'0', [], rfl, by simp⟩
    · obtain ⟨first, tail, hfirst, -, rfl⟩ := matches_seq_iff.mp hdigits
      obtain ⟨c, hc, rfl⟩ := matches_one_iff.mp hfirst
      refine ⟨c, tail, rfl, ?_⟩
      exact List.mem_cons_of_mem _ (List.mem_cons_of_mem _ (List.contains_iff_mem.mp hc))

open Pattern in
/-- A number starts with a character that only numbers start with. -/
theorem exists_cons_of_number {digits : List Char} (h : Spelling.number.Matches digits) :
    ∃ c tail, digits = c :: tail ∧ kindsFrom c = [.integer, .float] := by
  have hstarts : ∀ c ∈ "-0123456789".toList, kindsFrom c = [.integer, .float] :=
    forall_mem_of_all (by decide)
  obtain ⟨sign, _, hsign, hunsigned, rfl⟩ := matches_seq_iff.mp h
  obtain ⟨whole, rest, hwhole, -, rfl⟩ := matches_seq_iff.mp hunsigned
  obtain ⟨c, tail, hcons, hc⟩ := exists_cons_of_wholePart (.seq hsign hwhole)
  refine ⟨c, tail ++ rest, ?_, hstarts c hc⟩
  rw [← List.append_assoc, hcons, List.cons_append]

/-- A number is a lexeme if its word ends there. -/
theorem next_number {digits behind : List Char} (h : Spelling.number.Matches digits)
    (hbehind : EndsWord behind) :
    grammar.Next (digits ++ behind)
      ⟨some (if Piece.isFraction digits then .float else .integer), digits⟩ := by
  have hpattern : ∀ r ∈ grammar.rules, (r.kind = .integer → r.pattern = wholePart) ∧
      (r.kind = .float → r.pattern = floatPattern) := by simp [grammar, floatPattern]
  obtain ⟨c, tail, rfl, hkinds⟩ := exists_cons_of_number h
  refine next_of_kindsFrom ?_ ?_ ?_
  · -- one of the two rules for numbers describes it
    rcases matches_wholePart_or_floatPattern h with hwhole | hfloat
    · exact ⟨⟨.integer, wholePart⟩, by simp [grammar], hwhole⟩
    · exact ⟨⟨.float, floatPattern⟩, by simp [grammar, floatPattern], hfloat⟩
  · -- which of them does, the fraction tells
    intro r hr hkind hmatches
    simp only [hkinds, List.mem_cons, List.not_mem_nil, or_false] at hkind
    rcases hkind with hkind | hkind
    · rw [(hpattern r hr).1 hkind] at hmatches
      rw [hkind, isFraction_of_wholePart hmatches]
      rfl
    · rw [(hpattern r hr).2 hkind] at hmatches
      rw [hkind, isFraction_of_floatPattern hmatches, if_pos rfl]
  · -- neither goes on beyond the word
    intro r hr hkind v hv hmatches
    rw [hkinds] at hkind
    have hkind : r.kind ∈ [.integer, .float] ++ [.constant] := List.mem_append_left _ hkind
    exact length_le_of_endsWord hr hkind hbehind hv hmatches

/-! ## Strings -/

open Pattern in
/-- A string goes on with a character that stands for itself, or with a backslash and the character
    behind it. -/
theorem stringContent_cons_iff {c : Char} {s : List Char} :
    stringContent.Matches (c :: s) ↔
      (c ≠ '"' ∧ c ≠ '\\' ∧ stringContent.Matches s) ∨
        (c = '\\' ∧ ∃ d rest, d ≠ '\n' ∧ s = d :: rest ∧ stringContent.Matches rest) := by
  rw [stringContent, matches_many_cons_iff]
  constructor
  · intro h
    -- the first piece of the run is one character, or a pair with a backslash
    obtain ⟨u, v, hu, hv, rfl⟩ := h
    rcases matches_either_iff.mp hu with hplain | hescape
    · obtain ⟨d, hd, heq⟩ := matches_one_iff.mp hplain
      obtain ⟨rfl, rfl⟩ := List.cons.inj heq
      simp only [String.reduceToList, List.contains_cons, List.contains_nil, Bool.or_false,
        Bool.not_eq_true', Bool.or_eq_false_iff, beq_eq_false_iff_ne] at hd
      exact .inl ⟨hd.1, hd.2, hv⟩
    · obtain ⟨slash, _, hslash, hbehind, heq⟩ := matches_seq_iff.mp hescape
      obtain rfl := matches_text_iff.mp hslash
      obtain ⟨d, hd, rfl⟩ := matches_one_iff.mp hbehind
      obtain ⟨rfl, rfl⟩ := List.cons.inj heq
      exact .inr ⟨rfl, d, v, by simpa using hd, rfl, hv⟩
  · intro h
    rcases h with ⟨hquote, hslash, hs⟩ | ⟨rfl, d, rest, hd, rfl, hrest⟩
    · exact ⟨[], s, .left (.one (by simp [hquote, hslash])), hs, rfl⟩
    · exact ⟨[d], rest, .right (.seq (matches_text_iff.mpr rfl) (.one (by simp [hd]))), hrest, rfl⟩

/-- A run of string characters does not reach beyond a quote that ends such a run. -/
theorem length_le_of_stringContent {run v behind : List Char} (hrun : stringContent.Matches run)
    (h : stringContent.Matches v) (hv : v <+: run ++ '"' :: behind) : v.length ≤ run.length := by
  -- both runs are the same until one ends, where an escape is taken as a whole
  match run, v, hrun, h, hv with
  | _, [], _, _, _ => exact Nat.zero_le _
  -- a run that goes on would hold the quote as a plain character
  | [], d :: v, _, h, hv =>
    obtain ⟨rfl, -⟩ := List.cons_prefix_cons.mp hv
    rcases stringContent_cons_iff.mp h with ⟨hquote, -⟩ | ⟨hslash, -⟩
    · exact absurd rfl hquote
    · exact absurd hslash (by decide)
  | c :: run, d :: v, hrun, h, hv =>
    obtain ⟨rfl, htail⟩ := List.cons_prefix_cons.mp hv
    rcases stringContent_cons_iff.mp hrun with ⟨-, hplain, hrun'⟩ | ⟨hslash, e, run', -, rfl, hrun'⟩
    · rcases stringContent_cons_iff.mp h with ⟨-, -, h'⟩ | ⟨hslash, -⟩
      · exact Nat.succ_le_succ (length_le_of_stringContent hrun' h' htail)
      · exact absurd hslash hplain
    · rcases stringContent_cons_iff.mp h with ⟨-, hplain, -⟩ | ⟨-, e', v', -, rfl, h'⟩
      · exact absurd hslash hplain
      · obtain ⟨rfl, hbehind⟩ := List.cons_prefix_cons.mp htail
        exact Nat.succ_le_succ (Nat.succ_le_succ (length_le_of_stringContent hrun' h' hbehind))
termination_by v.length

/-- Digits stand for themselves in a string. -/
private theorem stringContent_hexDigits {digits : List Char}
    (h : ∀ c ∈ digits, (hexDigit? c).isSome = true) : stringContent.Matches digits := by
  induction digits with
  | nil => exact .done
  | cons c digits ih =>
    rw [List.forall_mem_cons] at h
    obtain ⟨hc, hdigits⟩ := h
    refine stringContent_cons_iff.mpr (.inl ⟨?_, ?_, ih hdigits⟩)
    · rintro rfl
      cases hc
    · rintro rfl
      cases hc

open Pattern in
/-- What the grammar allows between quotes, the lexer takes for the inside of a string. -/
theorem stringContent_of_content {s : List Char} (h : Spelling.content.Matches s) :
    stringContent.Matches s := by
  -- what the grammar takes for one character is a run of characters for the lexer
  refine matches_many_of_forall (fun u hu => ?_) h
  show stringContent.Matches u
  rcases matches_either_iff.mp hu with hplain | hescape
  · obtain ⟨c, hc, rfl⟩ := matches_one_iff.mp hplain
    simp only [Bool.and_eq_true, decide_eq_true_eq] at hc
    exact stringContent_cons_iff.mpr (.inl ⟨hc.1.2, hc.2, .done⟩)
  · obtain ⟨slash, _, hslash, hbehind, rfl⟩ := matches_seq_iff.mp hescape
    obtain rfl := matches_text_iff.mp hslash
    rcases matches_either_iff.mp hbehind with hsimple | hunit
    · obtain ⟨e, he, rfl⟩ := matches_one_iff.mp hsimple
      refine stringContent_cons_iff.mpr (.inr ⟨rfl, e, [], ?_, rfl, .done⟩)
      rintro rfl
      exact absurd he (by decide)
    · -- an escape takes one character, so the four digits stand for themselves
      obtain ⟨letter, digits, hletter, hdigits, rfl⟩ := matches_seq_iff.mp hunit
      obtain rfl := matches_text_iff.mp hletter
      refine stringContent_cons_iff.mpr (.inr ⟨rfl, 'u', digits, by decide, rfl, ?_⟩)
      refine stringContent_hexDigits fun c hc => ?_
      simpa [Spelling.hexDigit, allows] using allows_of_mem hdigits hc

open Pattern in
/-- A string is a lexeme, whatever comes behind it. -/
theorem next_quoted {quoted : List Char} (h : Spelling.string.Matches quoted)
    (behind : List Char) : grammar.Next (quoted ++ behind) ⟨some .string, quoted⟩ := by
  have hkinds : kindsFrom '"' = [.string, .openString] := by decide
  obtain ⟨body, rfl, hcontent⟩ := Spelling.matches_quotes_iff.mp h
  have hbody := stringContent_of_content hcontent
  -- whatever starts with the quote and goes on with string characters ends before the last quote
  have hwithin : ∀ run behind, stringContent.Matches run →
      '"' :: run <+: '"' :: (body ++ ['"']) ++ behind → run.length ≤ body.length := by
    intro run behind hrun hpre
    obtain ⟨-, hpre⟩ := List.cons_prefix_cons.mp hpre
    have hpre : run <+: body ++ '"' :: behind := by simpa using hpre
    exact length_le_of_stringContent hbody hrun hpre
  refine next_of_kindsFrom ?_ ?_ ?_
  · exact ⟨⟨.string, .inOrder [.text "\"", stringContent, .text "\""]⟩, by simp [grammar],
      Spelling.matches_quotes_iff.mpr ⟨body, rfl, hbody⟩⟩
  · intro r hr hkind hmatches
    simp only [hkinds, List.mem_cons, List.not_mem_nil, or_false] at hkind
    rcases hkind with hkind | hkind
    · exact hkind
    · -- an open string would hold the last quote
      obtain ⟨run, heq, hrun⟩ := exists_run_of_openString hr hkind hmatches
      have hlen := hwithin run [] hrun (by simp [← heq])
      rw [← (List.cons.inj heq).2, List.length_append] at hlen
      exact absurd hlen (Nat.not_succ_le_self _)
  · intro r hr hkind v hv hmatches
    simp only [hkinds, List.mem_cons, List.not_mem_nil, or_false] at hkind
    rcases hkind with hkind | hkind
    · obtain ⟨run, rfl, hrun⟩ := exists_run_of_string hr hkind hmatches
      have hlen := hwithin run behind hrun ((List.prefix_append _ ['"']).trans hv)
      simp only [List.length_cons, List.length_append]
      omega
    · obtain ⟨run, rfl, hrun⟩ := exists_run_of_openString hr hkind hmatches
      have hlen := hwithin run behind hrun hv
      simp only [List.length_cons, List.length_append]
      omega

end Tinct.Lexer.JsonText
