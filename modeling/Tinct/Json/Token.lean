import Tinct.Json
import Tinct.Number.Digits

/-! # JSON tokens

The first step of reading a JSON document cuts it into brackets, braces, colons, commas and scalars,
and drops the blanks between them.  Numbers and words are taken as the longest runs of characters
that can occur in them and have to be correct as a whole.

* `Token.ofChars?` is the list of tokens of a text;
* `stringBody?` reads a string up to its closing quote. -/

namespace Tinct.Json

/-- A token of a JSON document. -/
inductive Token where
  | openBracket
  | closeBracket
  | openBrace
  | closeBrace
  | colon
  | comma
  | null
  | bool (b : Bool)
  | number (n : Number)
  | string (t : Text)
deriving DecidableEq, Repr

/-- The blanks that may stand between tokens. -/
def isSpace (c : Char) : Bool := c = ' ' || c = '\t' || c = '\n' || c = '\r'

/-- The 16-bit unit that four hexadecimal digits name. -/
def unit? (a b c d : Char) : Option Nat := do
  return (((← hexDigit? a) * 16 + (← hexDigit? b)) * 16 + (← hexDigit? c)) * 16 + (← hexDigit? d)

/-- The character that a backslash in front of the given one stands for. -/
def simpleEscape? : Char → Option Char
  | '"' => some '"'
  | '\\' => some '\\'
  | '/' => some '/'
  | 'b' => some '\x08'
  | 'f' => some '\x0c'
  | 'n' => some '\n'
  | 'r' => some '\r'
  | 't' => some '\t'
  | _ => none

/-- A 16-bit unit in front of a string: two surrogates that belong together are one character, and a
surrogate alone is kept as such. -/
def consUnit (n : Nat) (t : Text) : Text :=
  if 0xD800 ≤ n && n ≤ 0xDBFF then
    match t with
    | .half m :: rest =>
      if 0xDC00 ≤ m then .char (Char.ofNat (0x10000 + (n - 0xD800) * 0x400 + (m - 0xDC00))) :: rest
      else .half n :: t
    | _ => .half n :: t
  else if 0xDC00 ≤ n && n ≤ 0xDFFF then .half n :: t
  else .char (Char.ofNat n) :: t

/-- The content of a string up to its closing quote, and the text behind it. -/
def stringBody? : List Char → Option (Text × List Char)
  | [] => none
  | '"' :: rest => some ([], rest)
  | '\\' :: 'u' :: a :: b :: c :: d :: rest =>
    match unit? a b c d, stringBody? rest with
    | some n, some (t, behind) => some (consUnit n t, behind)
    | _, _ => none
  | '\\' :: e :: rest =>
    match simpleEscape? e, stringBody? rest with
    | some c, some (t, behind) => some (.char c :: t, behind)
    | _, _ => none
  | c :: rest =>
    if c.toNat < 0x20 || c = '\\' then none
    else (stringBody? rest).map fun (t, behind) => (.char c :: t, behind)

theorem length_of_stringBody? {text : List Char} {t : Text} {behind : List Char}
    (h : stringBody? text = some (t, behind)) : behind.length < text.length := by
  fun_induction stringBody? text generalizing t behind with
  | case1 => simp at h
  | case2 rest => simp_all
  | case3 a b c d rest n t' behind' hb _ ih =>
    have := ih hb
    simp only [Option.some.injEq, Prod.mk.injEq] at h
    simp only [List.length_cons, ← h.2]
    omega
  | case4 => simp at h
  | case5 e rest _ c t' behind' hb _ ih =>
    have := ih hb
    simp only [Option.some.injEq, Prod.mk.injEq] at h
    simp only [List.length_cons, ← h.2]
    omega
  | case6 => simp at h
  | case7 => simp at h
  | case8 c rest _ _ _ _ ih =>
    obtain ⟨⟨t', behind'⟩, hb, eq⟩ := Option.map_eq_some_iff.1 h
    have := ih hb
    simp only [Prod.mk.injEq] at eq
    simp only [List.length_cons, ← eq.2]
    omega

/-- The characters that occur in numbers. -/
def isNumberChar (c : Char) : Bool :=
  c.isDigit || c = '+' || c = '-' || c = '.' || c = 'e' || c = 'E'

/-- Whether a minus sign starts a text, and the text behind it. -/
def minusSign : List Char → Bool × List Char
  | '-' :: rest => (true, rest)
  | rest => (false, rest)

/-- Whether a minus sign starts a text, and the text behind a sign of either kind. -/
def eitherSign : List Char → Bool × List Char
  | '+' :: rest => (false, rest)
  | rest => minusSign rest

/-- The digits behind a point at the start of a text, which may be missing, and the text behind. -/
def fraction? : List Char → Option (List Char × List Char)
  | '.' :: rest =>
    let digits := rest.takeWhile Char.isDigit
    if digits.isEmpty then none else some (digits, rest.dropWhile Char.isDigit)
  | rest => some ([], rest)

/-- The exponent that the end of a number gives, which may be missing. -/
def exponent? : List Char → Option (Option Int)
  | [] => some none
  | e :: rest =>
    if e = 'e' || e = 'E' then
      let (negative, digits) := eitherSign rest
      if digits.isEmpty || !digits.all Char.isDigit then none
      else some (some (if negative then -(decimalValue digits : Int) else decimalValue digits))
    else none

/-- Whether digits are the whole part of a number: there are some, and a zero in front stands
alone. -/
def isWholePart (digits : List Char) : Bool :=
  !digits.isEmpty && (digits.head? ≠ some '0' || digits.length = 1)

/-- The number that a whole text stands for. -/
def Number.ofChars? (text : List Char) : Option Number :=
  let (negative, unsigned) := minusSign text
  let whole := unsigned.takeWhile Char.isDigit
  if isWholePart whole then do
    let (fraction, rest) ← fraction? (unsigned.dropWhile Char.isDigit)
    let exponent ← exponent? rest
    return ⟨negative, decimalValue (whole ++ fraction), fraction.length, exponent⟩
  else none

/-- The token of a single character. -/
def Token.ofMark? : Char → Option Token
  | '[' => some .openBracket
  | ']' => some .closeBracket
  | '\x7b' => some .openBrace
  | '\x7d' => some .closeBrace
  | ':' => some .colon
  | ',' => some .comma
  | _ => none

/-- The token of a run of letters. -/
def Token.ofWord? (word : List Char) : Option Token :=
  if word = ['n', 'u', 'l', 'l'] then some .null
  else if word = ['t', 'r', 'u', 'e'] then some (.bool true)
  else if word = ['f', 'a', 'l', 's', 'e'] then some (.bool false)
  else none

/-- The tokens of a text. -/
def Token.ofChars? : List Char → Option (List Token)
  | [] => some []
  | c :: rest =>
    if isSpace c then Token.ofChars? rest
    else
      match Token.ofMark? c with
      | some t => (Token.ofChars? rest).map (t :: ·)
      | none =>
        if c = '"' then
          match _h : stringBody? rest with
          | some (t, behind) => (Token.ofChars? behind).map (.string t :: ·)
          | none => none
        else if c = '-' || c.isDigit then
          match Number.ofChars? (c :: rest.takeWhile isNumberChar) with
          | some n => (Token.ofChars? (rest.dropWhile isNumberChar)).map (.number n :: ·)
          | none => none
        else
          match Token.ofWord? (c :: rest.takeWhile Char.isAlpha) with
          | some t => (Token.ofChars? (rest.dropWhile Char.isAlpha)).map (t :: ·)
          | none => none
termination_by text => text.length
decreasing_by
  · simp
  · simp
  · have := length_of_stringBody? _h
    simp only [List.length_cons]; omega
  · have := (List.dropWhile_sublist (l := rest) isNumberChar).length_le
    simp only [List.length_cons]; omega
  · have := (List.dropWhile_sublist (l := rest) Char.isAlpha).length_le
    simp only [List.length_cons]; omega

end Tinct.Json
