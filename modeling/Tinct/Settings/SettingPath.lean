import Tinct.Number.Digits
import Tinct.Settings.Setting
import Tinct.Settings.SettingsError

/-! # Paths of settings

A path leads to a place in a tree of settings: a name, and then names and positions in lists, as in
`themes.search_paths[0]`.  Negative positions count from the end.

* `parse` reads a path;
* `put` stores a setting at its place, and makes the tables and lists on the way. -/

namespace Tinct

/-- A step of a path. -/
inductive Step where
  | name (name : String)
  | position (i : Int)
deriving DecidableEq, Repr

/-- A path from the table of all settings. -/
structure SettingPath where
  first : String
  steps : List Step
deriving DecidableEq, Repr

namespace SettingPath

/-! ## Reading paths -/

/-- Whether a character can stand in a name of a path. -/
def isNameChar (c : Char) : Bool := c.isAlphanum || c = ' ' || c = '_' || c = '-'

/-- Whether a character is a blank that may stand around a position. -/
def isSpace (c : Char) : Bool := c = ' ' || c = '\t'

/-- A position behind its bracket, and the text behind its closing bracket. -/
def position? (source : List Char) : Except PathError (Int × List Char) :=
  let start := source.dropWhile isSpace
  let negative := start.head? = some '-'
  let digits := (if negative then start.tail else start).takeWhile Char.isDigit
  let rest := (if negative then start.tail else start).dropWhile Char.isDigit
  let n := decimalValue digits
  let i := if negative then -(n : Int) else n
  if digits.isEmpty then .error .badIndex
  else if !fitsWord i then .error .hugeIndex
  else
    match rest.dropWhile isSpace with
    | ']' :: rest => .ok (i, rest)
    | _ => .error .badStep

/-- A step behind the first name, and the text behind it. -/
def step? : List Char → Except PathError (Step × List Char)
  | '.' :: rest =>
    let name := rest.takeWhile isNameChar
    if name.isEmpty then .error .badStep
    else .ok (.name (lowercase (String.ofList name)), rest.dropWhile isNameChar)
  | '[' :: rest => (position? rest).map fun (i, rest) => (.position i, rest)
  | _ => .error .badStep

/-- The steps behind the first name. -/
def steps? (source : List Char) : Except PathError (List Step) :=
  if source.isEmpty then .ok []
  else do
    let (step, rest) ← step? source
    if rest.length < source.length then return step :: (← steps? rest) else .error .badStep
termination_by source.length

/-- The path that a text stands for. -/
def parse (text : String) : Except PathError SettingPath := do
  let name := text.toList.takeWhile isNameChar
  if name.isEmpty then .error .noName
  return ⟨lowercase (String.ofList name), ← steps? (text.toList.dropWhile isNameChar)⟩

/-- The path of a name in a document, which may be a path of several steps. -/
def ofName (name : String) : SettingPath :=
  match parse name with
  | .ok path => path
  | .error _ => ⟨name, []⟩

/-! ## Storing settings -/

/-- The number of a position in a list of a length. -/
def offset (i : Int) (length : Nat) : Nat := if 0 ≤ i then i.toNat else length - i.natAbs

/-- A list of settings that is long enough to have a position. -/
def extend (items : List Setting) (n : Nat) : List Setting :=
  items ++ List.replicate (n + 1 - items.length) .missing

/-- Stores a setting behind steps from another one. -/
def putAt (v : Setting) : List Step → Setting → Setting
  | [], _ => v
  | [.name name], s => s.store name v
  | .name name :: steps, s =>
    let inner := putAt v steps ((s.entry? name).getD .missing)
    s.withEntries (putEntry name inner s.entries)
  | .position i :: steps, s =>
    let n := offset i s.items.length
    let items := extend s.items n
    s.withItems (items.set n (putAt v steps (items[n]?.getD .missing)))

/-- Stores a setting at a path. -/
def put (path : SettingPath) (v s : Setting) : Setting := putAt v (.name path.first :: path.steps) s

/-- Stores all entries of a document. -/
def putAll (document : List (String × Setting)) (s : Setting) : Setting :=
  document.foldl (fun s (name, v) => (ofName name).put v s) s

end SettingPath

end Tinct
