import Tinct.Entries
import Tinct.Text.Lowercase
import Tinct.Toml

/-! # Trees of settings

Settings form a tree of tables and lists.  A setting knows the document it comes from, which is
named if the setting turns out to be wrong.  Names are kept in small letters.

* `store` puts a setting under a name of a table; tables are merged entry by entry, and everything
  else replaces what was there. -/

namespace Tinct

/-- The value of a setting that is no list and no table. -/
inductive Scalar where
  | bool (b : Bool)
  | integer (n : Int)
  | float (x : Double)
  | text (t : String)
deriving DecidableEq, Repr

/-- A setting or a collection of settings. -/
inductive Setting where
  /-- No value. -/
  | missing
  | scalar (origin : Option String) (value : Scalar)
  | list (origin : Option String) (items : List Setting)
  | table (origin : Option String) (entries : List (String × Setting))
deriving Inhabited

namespace Setting

/-- The entries of a table; nothing else has entries. -/
def entries : Setting → List (String × Setting)
  | table _ entries => entries
  | _ => []

/-- The items of a list; nothing else has items. -/
def items : Setting → List Setting
  | list _ items => items
  | _ => []

/-- The table with other entries.  What is no table is replaced by one. -/
def withEntries (s : Setting) (entries : List (String × Setting)) : Setting :=
  match s with
  | table origin _ => table origin entries
  | _ => table none entries

/-- The list with other items.  What is no list is replaced by one. -/
def withItems (s : Setting) (items : List Setting) : Setting :=
  match s with
  | list origin _ => list origin items
  | _ => list none items

/-- The entry of a table for a name in small letters. -/
def entry? (s : Setting) (name : String) : Option Setting := s.entries.lookup name

mutual

/-- Puts a setting under a name of a table.  The entries of a table are put one by one into the
table that is there, or into a new one. -/
def store (s : Setting) (name : String) : Setting → Setting
  | table _ entries =>
    let inner := (s.entries.lookup (lowercase name)).getD (table none [])
    s.withEntries (putEntry (lowercase name) (storeAll inner entries) s.entries)
  | v => s.withEntries (putEntry (lowercase name) v s.entries)

/-- Puts all entries into a table. -/
def storeAll (s : Setting) : List (String × Setting) → Setting
  | [] => s
  | (name, v) :: rest => storeAll (s.store name v) rest

end

mutual

/-- The setting that a value of a document is. -/
def ofToml (origin : Option String) : Toml → Setting
  | .bool b => scalar origin (.bool b)
  | .integer n => scalar origin (.integer n)
  | .float x => scalar origin (.float x)
  | .text t => scalar origin (.text t)
  | .time t => scalar origin (.text t)
  | .list items => list origin (itemsOfToml origin items)
  | .table entries => table origin (entriesOfToml origin entries)

/-- The settings that the values of a list are. -/
def itemsOfToml (origin : Option String) : List Toml → List Setting
  | [] => []
  | v :: rest => ofToml origin v :: itemsOfToml origin rest

/-- The settings that the values of entries are. -/
def entriesOfToml (origin : Option String) : List (String × Toml) → List (String × Setting)
  | [] => []
  | (name, v) :: rest => (name, ofToml origin v) :: entriesOfToml origin rest

end

end Setting

end Tinct
