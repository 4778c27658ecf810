import Tinct.Json.Number

/-! # JSON values

A JSON document as a tree.  A JSON string is a sequence of characters and, since its escapes name
16-bit units, of surrogates that have lost their partner; only a string without such surrogates is a
text.  The members of an object are kept in order, with repeated names.

* `depth` is the nesting depth;
* `isPlain` says that every string is a text and every number fits double precision. -/

namespace Tinct

namespace Json

/-- One position of a JSON string. -/
inductive Unit where
  /-- A character. -/
  | char (c : Char)
  /-- A surrogate without its partner. -/
  | half (code : Nat)
deriving DecidableEq, Repr

/-- The content of a JSON string. -/
abbrev Text := List Unit

/-- The string of a text. -/
def Text.ofString (s : String) : Text := s.toList.map .char

/-- The characters of a string without lost surrogates. -/
def Text.chars? : Text → Option (List Char)
  | [] => some []
  | .char c :: rest => (Text.chars? rest).map (c :: ·)
  | .half _ :: _ => none

/-- The text of a string without lost surrogates. -/
def Text.string? (t : Text) : Option String := t.chars?.map String.ofList

end Json

/-- A JSON value. -/
inductive Json where
  | null
  | bool (b : Bool)
  | number (n : Json.Number)
  | string (t : Json.Text)
  | array (items : List Json)
  | object (members : List (Json.Text × Json))

namespace Json

/-- The JSON string of a text. -/
def ofString (s : String) : Json := .string (.ofString s)

/-- The JSON number of a natural number. -/
def ofNat (n : Nat) : Json := .number (.ofNat n)

/-- The text or `null`. -/
def ofString? (s : Option String) : Json := (s.map ofString).getD .null

/-- The object with the given members. -/
def ofMembers (members : List (String × Json)) : Json :=
  .object (members.map fun (name, value) => (.ofString name, value))

mutual

/-- How many arrays and objects lie around the innermost value. -/
def depth : Json → Nat
  | array items => depthItems items + 1
  | object members => depthMembers members + 1
  | _ => 0

/-- The largest depth of a list of values. -/
def depthItems : List Json → Nat
  | [] => 0
  | item :: rest => max item.depth (depthItems rest)

/-- The largest depth of the values of members. -/
def depthMembers : List (Text × Json) → Nat
  | [] => 0
  | (_, value) :: rest => max value.depth (depthMembers rest)

end

mutual

/-- Whether every string in a value is a text and every number fits double precision. -/
def isPlain : Json → Bool
  | number n => n.isFinite
  | string t => t.chars?.isSome
  | array items => itemsPlain items
  | object members => membersPlain members
  | _ => true

/-- Whether all values of a list are plain. -/
def itemsPlain : List Json → Bool
  | [] => true
  | item :: rest => item.isPlain && itemsPlain rest

/-- Whether all names and values of members are plain. -/
def membersPlain : List (Text × Json) → Bool
  | [] => true
  | (name, value) :: rest => name.chars?.isSome && value.isPlain && membersPlain rest

end

/-- The depth from which on a document counts as too deep. -/
def depthLimit : Nat := 128

/-- Whether a value is one that can be held: plain and not too deep. -/
def isSound (v : Json) : Bool := v.isPlain && v.depth < depthLimit

end Json

end Tinct
