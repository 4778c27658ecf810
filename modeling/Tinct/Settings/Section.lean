import Tinct.Number.Digits
import Tinct.Settings.Setting
import Tinct.Settings.SettingsError
import Tinct.Text.Quoted

/-! # Sections of settings

A section is a table of fields with known names, or a list of them in a known order.  The value of a
field is converted to the kind that the field wants, as far as a conversion makes sense.

* `toBool`, `toNat`, `toText` and `toTexts` convert a setting;
* `Section.field` reads a field of a section. -/

namespace Tinct

namespace Setting

/-- What a setting is, where a section or a list was wanted. -/
def kind : Setting → String
  | missing => "unit value"
  | scalar _ (.bool b) => "boolean \x60" ++ (if b then "true" else "false") ++ "\x60"
  | scalar _ (.integer n) => "integer \x60" ++ toString n ++ "\x60"
  | scalar _ (.float x) => "floating point \x60" ++ x.pointedText ++ "\x60"
  | scalar _ (.text t) => "string " ++ quoted t
  | list _ _ => "sequence"
  | table _ _ => "map"

/-- The error for a setting that has another kind than a scalar. -/
def notScalar (wanted key : String) : Setting → SettingsError
  | list origin _ => .wrongKind "sequence" wanted key origin
  | table origin _ => .wrongKind "map" wanted key origin
  | _ => .wrongKind "unit value" wanted key none

/-- The truth value of a setting.  Numbers are true unless they are zero, and some words are truth
values in letters of either case. -/
def toBool (key : String) : Setting → Except SettingsError Bool
  | scalar _ (.bool b) => .ok b
  | scalar _ (.integer n) => .ok (n ≠ 0)
  | scalar _ (.float x) => .ok !x.isZero
  | scalar origin (.text t) =>
    let word := lowercase t
    if ["1", "true", "on", "yes"].contains word then .ok true
    else if ["0", "false", "off", "no"].contains word then .ok false
    else .error (.wrongKind ("string " ++ quoted word) "a boolean" key origin)
  | s => .error (s.notScalar "a boolean" key)

/-- The largest number that a setting can have. -/
def largest : Nat := UInt64.size - 1

/-- The number that a text is the decimal form of. -/
def number? (t : String) : Option Nat :=
  let digits := if t.toList.head? = some '+' then t.toList.tail else t.toList
  if digits.isEmpty || !digits.all Char.isDigit then none
  else if largest < decimalValue digits then none
  else some (decimalValue digits)

/-- The natural number of a setting.  A fraction is rounded, and a truth value is one or zero. -/
def toNat (key : String) : Setting → Except SettingsError Nat
  | scalar _ (.bool b) => .ok b.toNat
  | scalar origin (.integer n) =>
    if 0 ≤ n then .ok n.toNat
    else
      .error (.wrongKind ("64-bit integer \x60" ++ toString n ++ "\x60")
        "an unsigned 64 bit or less integer" key origin)
  | scalar _ (.float x) => .ok (x.toNat largest)
  | scalar origin (.text t) =>
    let word := lowercase t
    if ["true", "on", "yes"].contains word then .ok 1
    else if ["false", "off", "no"].contains word then .ok 0
    else
      match number? t with
      | some n => .ok n
      | none => .error (.wrongKind ("string " ++ quoted t) "an integer" key origin)
  | s => .error (s.notScalar "an integer" key)

/-- The text of a setting.  Truth values and numbers are written out. -/
def toText (key : String) : Setting → Except SettingsError String
  | scalar _ (.bool b) => .ok (if b then "true" else "false")
  | scalar _ (.integer n) => .ok (toString n)
  | scalar _ (.float x) => .ok x.text
  | scalar _ (.text t) => .ok t
  | s => .error (s.notScalar "a string" key)

/-- The key of an item of a list. -/
def itemKey (key : String) (i : Nat) : String := key ++ "[" ++ toString i ++ "]"

/-- The texts of the items of a list. -/
def toTexts (key : String) : Setting → Except SettingsError (List String)
  | list _ items => items.zipIdx.mapM fun (item, i) => item.toText (itemKey key i)
  | s => .error (.badSection ("invalid type: " ++ s.kind ++ ", expected a sequence"))

end Setting

/-- A section: the key it stands under, and what it is called. -/
structure Section where
  key : String
  title : String
  /-- How many fields it has. -/
  size : Nat
deriving DecidableEq, Repr

namespace Section

/-- The error for a setting that is no section. -/
def notSection (c : Section) (s : Setting) : SettingsError :=
  .badSection ("invalid type: " ++ s.kind ++ ", expected struct " ++ c.title)

/-- The field of a name and a number, with its key, if it is there. -/
def field? (c : Section) (i : Nat) (name : String) (s : Setting) :
    Except SettingsError (Option (String × Setting)) :=
  match s with
  | .table _ _ => .ok ((s.entry? name).map (c.key ++ "." ++ name, ·))
  | .list _ items => .ok (items[i]?.map (Setting.itemKey c.key i, ·))
  | s => .error (c.notSection s)

/-- The error for a field that is not there. -/
def noField (c : Section) (name : String) : Setting → SettingsError
  | .list _ items =>
    .badSection ("invalid length " ++ toString items.length ++ ", expected struct " ++ c.title ++
      " with " ++ toString c.size ++ " elements")
  | _ => .badSection ("missing field \x60" ++ name ++ "\x60")

/-- Reads a field that has to be there. -/
def field {α : Type} (c : Section) (s : Setting) (i : Nat) (name : String)
    (read : String → Setting → Except SettingsError α) : Except SettingsError α := do
  match ← c.field? i name s with
  | some (key, v) => read key v
  | none => .error (c.noField name s)

/-- Reads a field, or takes a default where it is not there. -/
def fieldD {α : Type} (c : Section) (s : Setting) (i : Nat) (name : String)
    (read : String → Setting → Except SettingsError α) (default : α) : Except SettingsError α := do
  match ← c.field? i name s with
  | some (key, v) => read key v
  | none => .ok default

end Section

end Tinct
