import Tinct.Listing
import Tinct.Proofs.JsonReading
import Tinct.Proofs.PatternMatching

/-!
# The grammar of JSON documents

A JSON document is a value with blanks around it.  Values are constants, numbers, strings, arrays
and objects, and blanks may stand on both sides of the characters that structure arrays and objects.
The grammar derives rows of pieces: a string that names a member is another piece than a string that
is a value, although both are written alike.

What a piece is can be seen from what comes next, blanks aside: a name is followed by a colon, and
any other scalar by another structural character or by nothing.

## Key results

- `Derives`: the rows of pieces that the grammar derives
- `wellPlaced_of_isDocument`: in a document every piece is spelled correctly and followed by what
  its kind asks for
-/

namespace Tinct.Json

/-! ## Spellings -/

namespace Spelling

open Pattern

/-- A decimal digit. -/
def digit : Pattern := .one Char.isDigit

/-- A hexadecimal digit. -/
def hexDigit : Pattern := .one fun c => (hexDigit? c).isSome

/-- The digits before the point: a zero in front stands alone. -/
def whole : Pattern := either (text "0") (seq (anyOf "123456789") (many digit))

/-- A point and digits. -/
def fraction : Pattern := seq (text ".") (many1 digit)

/-- The letter of an exponent, maybe a sign, and digits. -/
def exponent : Pattern := inOrder [anyOf "eE", optional (anyOf "+-"), many1 digit]

/-- A number: a sign, digits, a fraction and an exponent, of which only the digits have to be
    there. -/
def number : Pattern := inOrder [optional (text "-"), whole, optional fraction, optional exponent]

/-- A character that stands for itself in a string. -/
def plain : Pattern := .one fun c => 0x20 ≤ c.toNat && c ≠ '"' && c ≠ '\\'

/-- A backslash with a letter or a mark, or with the number of a 16-bit unit. -/
def escape : Pattern :=
  seq (text "\\")
    (either (anyOf "\"\\/bfnrt") (inOrder [text "u", hexDigit, hexDigit, hexDigit, hexDigit]))

/-- What stands between the quotes of a string. -/
def content : Pattern := many (either plain escape)

/-- A string with its quotes. -/
def string : Pattern := inOrder [text "\"", content, text "\""]

/-- The texts in quotes. -/
theorem matches_quotes_iff {p : Pattern} {s : List Char} :
    (inOrder [text "\"", p, text "\""]).Matches s ↔
      ∃ body, s = '"' :: (body ++ ['"']) ∧ p.Matches body := by
  constructor
  · intro h
    -- the three parts of the pattern, of which the quotes are known
    obtain ⟨front, _, hfront, hbehind, rfl⟩ := matches_seq_iff.mp h
    obtain ⟨body, _, hbody, hclose, rfl⟩ := matches_seq_iff.mp hbehind
    obtain ⟨back, _, hback, hnil, rfl⟩ := matches_seq_iff.mp hclose
    obtain rfl := matches_text_iff.mp hfront
    obtain rfl := matches_text_iff.mp hback
    obtain rfl := matches_nothing_iff.mp hnil
    exact ⟨body, rfl, hbody⟩
  · intro h
    obtain ⟨body, rfl, hbody⟩ := h
    exact .seq (matches_text_iff.mpr rfl) (.seq hbody (.seq (matches_text_iff.mpr rfl) .nothing))

/-- The words with a value of their own. -/
def constants : List (List Char) := ["true".toList, "false".toList, "null".toList]

end Spelling

/-! ## Pieces -/

/-- What a document is made of. -/
inductive Piece where
  | blank (run : List Char)
  /-- A bracket, a brace, a colon or a comma. -/
  | mark (c : Char)
  | constant (word : List Char)
  | number (digits : List Char)
  /-- A string that is a value, with its quotes. -/
  | string (quoted : List Char)
  /-- A string that names a member, with its quotes. -/
  | name (quoted : List Char)
deriving DecidableEq, Repr

namespace Piece

def text : Piece → List Char
  | blank run => run
  | mark c => [c]
  | constant word => word
  | number digits => digits
  | string quoted => quoted
  | name quoted => quoted

def isBlank : Piece → Bool
  | blank _ => true
  | _ => false

/-- Whether a number is written with a fraction or an exponent. -/
def isFraction (digits : List Char) : Bool := digits.any fun c => c = '.' || c = 'e' || c = 'E'

def category : Piece → Category
  | blank _ => .ofKey "Text.Whitespace"
  | mark _ => .ofKey "Punctuation"
  | constant _ => .ofKey "Keyword.Constant"
  | number digits =>
    if isFraction digits then .ofKey "Literal.Number.Float" else .ofKey "Literal.Number.Integer"
  | string _ => .ofKey "Literal.String.Double"
  | name _ => .ofKey "Name.Tag"

def fragment (p : Piece) : Fragment := ⟨p.category, String.ofList p.text⟩

/-- The text of a row of pieces. -/
def texts (ps : List Piece) : List Char := ps.flatMap text

/-- The pieces with each run of blanks as one piece. -/
def joined : List Piece → List Piece
  | [] => []
  | p :: rest =>
    if p.isBlank then
      .blank (p.text ++ texts (rest.takeWhile isBlank)) :: joined (rest.dropWhile isBlank)
    else p :: joined rest
termination_by ps => ps.length
decreasing_by
  · have := (List.dropWhile_suffix isBlank (l := rest)).length_le
    simp only [List.length_cons]; omega
  · simp

end Piece

/-! ## Derivations -/

/-- What is written in brackets: arrays and objects. -/
inductive Bracket where
  | array
  | object
deriving DecidableEq, Repr

/-- What the grammar derives. -/
inductive Symbol where
  | value
  /-- A member of an object. -/
  | member
  /-- The colon behind the name of a member, and its value. -/
  | named
  /-- What follows an opening bracket, up to the closing one. -/
  | inside (b : Bracket)
  /-- What follows an item or a member, up to the closing bracket. -/
  | others (b : Bracket)
deriving DecidableEq, Repr

namespace Bracket

def opening : Bracket → Char
  | array => '['
  | object => '\x7b'

def closing : Bracket → Char
  | array => ']'
  | object => '\x7d'

/-- What stands between the commas. -/
def element : Bracket → Symbol
  | array => .value
  | object => .member

end Bracket

/-- Blanks, one character each. -/
def Blanks (ps : List Piece) : Prop := ∀ p ∈ ps, ∃ c, isSpace c = true ∧ p = .blank [c]

/-- A structural character, with any blanks on both sides. -/
inductive Marks (c : Char) : List Piece → Prop where
  | intro {before after : List Piece} (hbefore : Blanks before) (hafter : Blanks after) :
    Marks c (before ++ .mark c :: after)

/-- The rows of pieces that the grammar derives. -/
inductive Derives : Symbol → List Piece → Prop where
  | constant {word : List Char} (h : word ∈ Spelling.constants) : Derives .value [.constant word]
  | number {digits : List Char} (h : Spelling.number.Matches digits) :
    Derives .value [.number digits]
  | string {quoted : List Char} (h : Spelling.string.Matches quoted) :
    Derives .value [.string quoted]
  | bracket {b : Bracket} {opened inner : List Piece} (hopen : Marks b.opening opened)
    (hinner : Derives (.inside b) inner) : Derives .value (opened ++ inner)
  | empty {b : Bracket} {closed : List Piece} (hclose : Marks b.closing closed) :
    Derives (.inside b) closed
  | first {b : Bracket} {element others : List Piece} (helement : Derives b.element element)
    (hothers : Derives (.others b) others) : Derives (.inside b) (element ++ others)
  | last {b : Bracket} {closed : List Piece} (hclose : Marks b.closing closed) :
    Derives (.others b) closed
  | next {b : Bracket} {comma element others : List Piece} (hcomma : Marks ',' comma)
    (helement : Derives b.element element) (hothers : Derives (.others b) others) :
    Derives (.others b) (comma ++ element ++ others)
  | member {quoted : List Char} {named : List Piece} (h : Spelling.string.Matches quoted)
    (hnamed : Derives .named named) : Derives .member (.name quoted :: named)
  | named {colon value : List Piece} (hcolon : Marks ':' colon) (hvalue : Derives .value value) :
    Derives .named (colon ++ value)

/-- The rows of pieces of documents. -/
inductive IsDocument : List Piece → Prop where
  | intro {before value after : List Piece} (hbefore : Blanks before)
    (hvalue : Derives .value value) (hafter : Blanks after) :
    IsDocument (before ++ value ++ after)

/-! ## What follows a piece -/

namespace Piece

/-- Whether a piece is spelled correctly. -/
def IsSpelled : Piece → Prop
  | blank run => ∃ c, isSpace c = true ∧ run = [c]
  | mark c => c ∈ Token.marks
  | constant word => word ∈ Spelling.constants
  | number digits => Spelling.number.Matches digits
  | string quoted => Spelling.string.Matches quoted
  | name quoted => Spelling.string.Matches quoted

/-- The first piece that is not a blank. -/
def next? (ps : List Piece) : Option Piece := ps.find? (!·.isBlank)

/-- A value ends here: nothing but a comma or a closing bracket comes next, if anything. -/
def EndsValue (behind : List Piece) : Prop :=
  ∀ p, next? behind = some p → ∃ c, c ≠ ':' ∧ p = .mark c

/-- What has to come next, for a piece to be of its kind. -/
def Precedes : Piece → List Piece → Prop
  | blank _, _ => True
  | mark _, _ => True
  | name _, behind => next? behind = some (.mark ':')
  | _, behind => EndsValue behind

/-- Every piece is spelled correctly and followed by what its kind asks for. -/
inductive WellPlaced : List Piece → Prop where
  | nil : WellPlaced []
  | cons {p : Piece} {behind : List Piece} (hspelled : p.IsSpelled) (hprecedes : p.Precedes behind)
    (hbehind : WellPlaced behind) : WellPlaced (p :: behind)

/-- The last pieces of a row stand at right places, too. -/
theorem WellPlaced.of_append {ps qs : List Piece} (h : WellPlaced (ps ++ qs)) : WellPlaced qs := by
  induction ps with
  | nil => exact h
  | cons p ps ih =>
    cases h with
    | cons _ _ hbehind => exact ih hbehind

theorem WellPlaced.dropWhile {ps : List Piece} (h : WellPlaced ps) (f : Piece → Bool) :
    WellPlaced (ps.dropWhile f) := by
  rw [← List.takeWhile_append_dropWhile (p := f) (l := ps)] at h
  exact h.of_append

/-- Blanks in front do not matter for the next piece. -/
theorem next?_blanks {blanks behind : List Piece} (h : Blanks blanks) :
    next? (blanks ++ behind) = next? behind := by
  have hnone : blanks.find? (!·.isBlank) = none := by
    rw [List.find?_eq_none]
    intro p hp
    obtain ⟨c, -, rfl⟩ := h p hp
    exact Bool.false_ne_true
  rw [next?, List.find?_append, hnone, Option.none_or, next?]

/-- Blanks can stand in front of every row. -/
theorem wellPlaced_blanks {blanks behind : List Piece} (h : Blanks blanks)
    (hbehind : WellPlaced behind) : WellPlaced (blanks ++ behind) := by
  induction blanks with
  | nil => exact hbehind
  | cons p blanks ih =>
    obtain ⟨c, hc, rfl⟩ := h p List.mem_cons_self
    exact .cons ⟨c, hc, rfl⟩ trivial (ih fun q hq => h q (List.mem_cons_of_mem _ hq))

/-- Behind blanks the mark comes next. -/
theorem next?_marks {c : Char} {marks behind : List Piece} (h : Marks c marks) :
    next? (marks ++ behind) = some (.mark c) := by
  obtain ⟨hbefore, -⟩ := h
  rw [List.append_assoc, next?_blanks hbefore]
  rfl

/-- A mark among blanks can stand in front of every row. -/
theorem wellPlaced_marks {c : Char} {marks behind : List Piece} (hc : c ∈ Token.marks)
    (h : Marks c marks) (hbehind : WellPlaced behind) : WellPlaced (marks ++ behind) := by
  obtain ⟨hbefore, hafter⟩ := h
  rw [List.append_assoc]
  exact wellPlaced_blanks hbefore (.cons hc trivial (wellPlaced_blanks hafter hbehind))

/-- A mark other than the colon ends a value. -/
theorem endsValue_marks {c : Char} {marks behind : List Piece} (hc : c ≠ ':') (h : Marks c marks) :
    EndsValue (marks ++ behind) := by
  intro p hp
  rw [next?_marks h] at hp
  exact ⟨c, hc, (Option.some.inj hp).symm⟩

end Piece

open Piece

theorem Bracket.opening_mem (b : Bracket) : b.opening ∈ Token.marks := by
  cases b <;> decide

theorem Bracket.closing_mem (b : Bracket) : b.closing ∈ Token.marks := by
  cases b <;> decide

theorem Bracket.closing_ne_colon (b : Bracket) : b.closing ≠ ':' := by
  cases b <;> decide

/-- A comma or a closing bracket ends the element before it. -/
theorem Derives.endsValue_others {b : Bracket} {others behind : List Piece}
    (h : Derives (.others b) others) : EndsValue (others ++ behind) := by
  cases h with
  | last hclose => exact endsValue_marks b.closing_ne_colon hclose
  | next hcomma _ _ =>
    rw [List.append_assoc, List.append_assoc]
    exact endsValue_marks (by decide) hcomma

/-- What has to come behind a row that is derived from a symbol. -/
def Symbol.Precedes : Symbol → List Piece → Prop
  | .inside _, _ => True
  | .others _, _ => True
  | _, behind => EndsValue behind

/-- An element can stand in front of all that ends a value. -/
theorem Bracket.element_precedes {b : Bracket} {behind : List Piece} (h : EndsValue behind) :
    b.element.Precedes behind := by
  cases b <;> exact h

/-- The rows of the grammar keep what is behind them well placed. -/
theorem Derives.wellPlaced {s : Symbol} {ps : List Piece} (h : Derives s ps) {behind : List Piece}
    (hprecedes : s.Precedes behind) (hbehind : WellPlaced behind) : WellPlaced (ps ++ behind) := by
  -- what is behind a row starts with the rows behind it, so it varies
  induction h generalizing behind with
  | constant h => exact .cons h hprecedes hbehind
  | number h => exact .cons h hprecedes hbehind
  | string h => exact .cons h hprecedes hbehind
  | @bracket b opened inner hopen _ ih =>
    rw [List.append_assoc]
    exact wellPlaced_marks b.opening_mem hopen (ih trivial hbehind)
  | @empty b closed hclose => exact wellPlaced_marks b.closing_mem hclose hbehind
  -- an element ends where the other ones go on
  | first _ hothers ihelement ihothers =>
    rw [List.append_assoc]
    exact ihelement (Bracket.element_precedes hothers.endsValue_others) (ihothers trivial hbehind)
  | @last b closed hclose => exact wellPlaced_marks b.closing_mem hclose hbehind
  | next hcomma _ hothers ihelement ihothers =>
    rw [List.append_assoc, List.append_assoc]
    exact wellPlaced_marks (by decide) hcomma
      (ihelement (Bracket.element_precedes hothers.endsValue_others) (ihothers trivial hbehind))
  | @member quoted named h hnamed ih =>
    refine .cons h ?_ (ih hprecedes hbehind)
    -- the colon comes next
    cases hnamed with
    | named hcolon _ =>
      show next? (_ ++ behind) = some (.mark ':')
      rw [List.append_assoc]
      exact next?_marks hcolon
  | named hcolon _ ih =>
    rw [List.append_assoc]
    exact wellPlaced_marks (by decide) hcolon (ih hprecedes hbehind)

/-- In a document every piece stands at a right place. -/
theorem wellPlaced_of_isDocument {ps : List Piece} (h : IsDocument ps) : WellPlaced ps := by
  obtain @⟨before, value, after, hbefore, hvalue, hafter⟩ := h
  have hplaced : WellPlaced after := List.append_nil after ▸ wellPlaced_blanks hafter .nil
  have hnext : next? after = none := List.append_nil after ▸ next?_blanks hafter
  rw [List.append_assoc]
  refine wellPlaced_blanks hbefore (hvalue.wellPlaced ?_ hplaced)
  intro p hp
  rw [hnext] at hp
  cases hp

end Tinct.Json
