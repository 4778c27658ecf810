import Tinct.Entries
import Tinct.Text.LineEnding
import Tinct.Toml.Statement
import Tinct.Toml.TimeTable

/-! # TOML documents

The statements of a document build up one table.  A table comes into being by a header, by a header
of a table in it, or by a key with several names, and these ways must not be mixed: a header opens
each table once, and a key with several names adds only to tables that such keys made.

* `Outline.put?`, `Outline.open?` and `Outline.append?` are the effects of the statements;
* `Toml.parse?` is the table of a document. -/

namespace Tinct

namespace Toml

/-- How a table came into being. -/
inductive Origin where
  /-- By a header of a table in it. -/
  | implied
  /-- By a key with several names. -/
  | dotted
  /-- By its own header, or as the document. -/
  | declared
deriving DecidableEq, Repr

/-- What a name stands for while a document is read. -/
inductive Item where
  /-- A value, to which nothing can be added. -/
  | value (v : Toml)
  | table (origin : Origin) (entries : List (String × Item))
  /-- A list of tables, of which the last one is open. -/
  | tables (items : List (List (String × Item)))

/-- The entries of a table while a document is read. -/
abbrev Outline := List (String × Item)

namespace Outline

/-- The origin and the entries of the table that an item is, or of the open one in a list of tables.
Without an item the table is a new one.  A key with several names does not lead into a table that
has been declared. -/
def enter? (byDots : Bool) : Option Item → Option (Origin × Outline)
  | none => some (if byDots then .dotted else .implied, [])
  | some (.value _) => none
  | some (.table origin entries) =>
    if byDots && origin = .declared then none else some (origin, entries)
  | some (.tables items) => items.getLast?.map (.declared, ·)

/-- An item with other entries for the table in it. -/
def leave (item : Option Item) (origin : Origin) (entries : Outline) : Item :=
  match item with
  | some (.tables items) => .tables (items.dropLast ++ [entries])
  | _ => .table origin entries

/-- Changes the table that names lead to. -/
def change? (byDots : Bool) (f : Origin → Outline → Option Outline) :
    List String → Origin → Outline → Option Outline
  | [], origin, o => f origin o
  | name :: path, _, o => do
    let (origin, entries) ← enter? byDots (o.lookup name)
    let entries ← change? byDots f path origin entries
    return putEntry name (leave (o.lookup name) origin entries) o

/-- Adds an item under a name that is still free, in a table of the right origin. -/
def add? (path : List String) (name : String) (item : Item) (origin : Origin) (o : Outline) :
    Option Outline :=
  if decide (origin = .dotted) = path.isEmpty || (o.lookup name).isSome then none
  else some (putEntry name item o)

/-- Stores a value under a key of a declared table. -/
def put? (key : List String) (v : Toml) (o : Outline) : Option Outline := do
  let name ← key.getLast?
  change? true (add? key.dropLast name (.value v)) key.dropLast .declared o

/-- Opens the table of a header, which becomes the last entry around it. -/
def open? (key : List String) (o : Outline) : Option Outline := do
  let name ← key.getLast?
  let openHere (_ : Origin) (o : Outline) :=
    match o.lookup name with
    | none => some (o ++ [(name, .table .declared [])])
    | some (.table .implied entries) =>
      some (o.filter (·.1 ≠ name) ++ [(name, .table .declared entries)])
    | some _ => none
  change? false openHere key.dropLast .declared o

/-- Adds a table to the list of a header. -/
def append? (key : List String) (o : Outline) : Option Outline := do
  let name ← key.getLast?
  let appendHere (_ : Origin) (o : Outline) :=
    match o.lookup name with
    | none => some (putEntry name (.tables [[]]) o)
    | some (.tables items) => some (putEntry name (.tables (items ++ [[]])) o)
    | some _ => none
  change? false appendHere key.dropLast .declared o

end Outline

mutual

/-- The value of an item. -/
def Item.toml : Item → Toml
  | .value v => v
  | .table _ entries => .table (entriesToml entries)
  | .tables items => .list (tablesToml items)

/-- The values of entries. -/
def entriesToml : List (String × Item) → List (String × Toml)
  | [] => []
  | (name, item) :: rest => (name, item.toml) :: entriesToml rest

/-- The values of tables. -/
def tablesToml : List (List (String × Item)) → List Toml
  | [] => []
  | entries :: rest => .table (entriesToml entries) :: tablesToml rest

end

mutual

/-- The value of a value as it is written; inline tables follow the rules for keys. -/
def Written.toml? : Written → Option Toml
  | .plain v => some v
  | .list items => (itemsToml? items).map .list
  | .table entries => (pairsToml? entries []).map fun o => .table (entriesToml o)

/-- The values of the items of a list. -/
def itemsToml? : List Written → Option (List Toml)
  | [] => some []
  | item :: rest => do return (← item.toml?) :: (← itemsToml? rest)

/-- The outline of an inline table with more entries. -/
def pairsToml? : List (List String × Written) → Outline → Option Outline
  | [], o => some o
  | (key, v) :: rest, o => do pairsToml? rest (← o.put? key (← v.toml?))

end

/-- The document after a statement, and the key of the table that is open behind it. -/
def run? : List String × Outline → Statement → Option (List String × Outline)
  | (_, o), .header key => (o.open? key).map (key, ·)
  | (_, o), .itemHeader key => (o.append? key).map (key, ·)
  | (current, o), .entry key v => do
    let v ← v.toml?
    let o ← Outline.change? false (fun _ => Outline.put? key v) current .declared o
    return (current, o)

end Toml

/-- The entries of a document, which may start with a byte order mark.  A document that as a whole
has the form of a time is not well formed. -/
def Toml.parse? (text : String) : Option (List (String × Toml)) := do
  let source := if text.toList.head? = some '\ufeff' then text.toList.tail else text.toList
  let (_, o) ← (← statements? (joinReturnFeeds source)).foldlM run? ([], [])
  match ← withTimes? (.table (entriesToml o)) with
  | .table entries => return entries
  | _ => none

end Tinct
