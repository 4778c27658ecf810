import Tinct.Json

/-! # Writing JSON documents

A document is written on one line, or with one item to a line and an indentation of two spaces for
each level.  Strings escape the quote, the backslash and the control characters below the space. -/

namespace Tinct.Json

/-- How the parts of a document are set. -/
inductive Layout where
  /-- All on one line, without spaces. -/
  | compact
  /-- One item or member to a line, indented by its depth. -/
  | pretty
deriving DecidableEq, Repr

/-- What separates the items at a depth. -/
def Layout.newline : Layout → Nat → List Char
  | compact, _ => []
  | pretty, depth => '\n' :: List.replicate (2 * depth) ' '

/-- What stands between a name and its value. -/
def Layout.colon : Layout → List Char
  | compact => [':']
  | pretty => [':', ' ']

/-- A hexadecimal digit, in small letters. -/
def hexChar (n : Nat) : Char := if n < 10 then Char.ofNat (48 + n) else Char.ofNat (87 + n)

/-- The escape of a 16-bit unit. -/
def unitEscape (n : Nat) : List Char :=
  ['\\', 'u', hexChar (n / 4096 % 16), hexChar (n / 256 % 16), hexChar (n / 16 % 16),
    hexChar (n % 16)]

/-- A character as it is written in a string. -/
def escape (c : Char) : List Char :=
  if c = '"' then ['\\', '"']
  else if c = '\\' then ['\\', '\\']
  else if c = '\x08' then ['\\', 'b']
  else if c = '\x0c' then ['\\', 'f']
  else if c = '\n' then ['\\', 'n']
  else if c = '\r' then ['\\', 'r']
  else if c = '\t' then ['\\', 't']
  else if c.toNat < 0x20 then unitEscape c.toNat
  else [c]

/-- A position of a string as it is written. -/
def Unit.written : Unit → List Char
  | char c => escape c
  | half n => unitEscape n

/-- A string as it is written, with its quotes. -/
def Text.written (t : Text) : List Char := '"' :: t.flatMap Unit.written ++ ['"']

/-- The digits of a number, with a point and its places if there are any. -/
def Number.writtenDigits (n : Number) : List Char :=
  let digits := Nat.toDigits 10 n.digits
  let zeros := List.replicate (n.places + 1 - digits.length) '0'
  let whole := (zeros ++ digits).take (zeros.length + digits.length - n.places)
  if n.places = 0 then digits else whole ++ '.' :: (zeros ++ digits).drop whole.length

/-- A number as it is written. -/
def Number.written (n : Number) : List Char :=
  (if n.negative then ['-'] else []) ++ n.writtenDigits ++
    match n.exponent with
    | none => []
    | some e => 'e' :: (if e < 0 then ['-'] else []) ++ Nat.toDigits 10 e.natAbs

mutual

/-- A value as it is written at a depth. -/
def written (layout : Layout) (depth : Nat) : Json → List Char
  | null => ['n', 'u', 'l', 'l']
  | bool true => ['t', 'r', 'u', 'e']
  | bool false => ['f', 'a', 'l', 's', 'e']
  | number n => n.written
  | string t => t.written
  | array [] => ['[', ']']
  | array (item :: rest) =>
    '[' :: layout.newline (depth + 1) ++ written layout (depth + 1) item ++
      writtenItems layout (depth + 1) rest ++ layout.newline depth ++ [']']
  | object [] => ['\x7b', '\x7d']
  | object ((name, value) :: rest) =>
    '\x7b' :: layout.newline (depth + 1) ++ Text.written name ++ layout.colon ++
      written layout (depth + 1) value ++ writtenMembers layout (depth + 1) rest ++
      layout.newline depth ++ ['\x7d']

/-- The items after the first. -/
def writtenItems (layout : Layout) (depth : Nat) : List Json → List Char
  | [] => []
  | item :: rest =>
    ',' :: layout.newline depth ++ written layout depth item ++ writtenItems layout depth rest

/-- The members after the first. -/
def writtenMembers (layout : Layout) (depth : Nat) : List (Text × Json) → List Char
  | [] => []
  | (name, value) :: rest =>
    ',' :: layout.newline depth ++ Text.written name ++ layout.colon ++
      written layout depth value ++ writtenMembers layout depth rest

end

/-- The text of a value. -/
def print (layout : Layout) (v : Json) : String := String.ofList (written layout 0 v)

end Tinct.Json
