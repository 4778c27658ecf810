import Tinct.Failure
import Tinct.Path
import Tinct.Theme.File

/-! # Collections of themes

Themes are kept by name.  A directory of theme files can be loaded into a collection: its files are
read in the order of their names, and a file that cannot be used ends the loading, but leaves the
themes of the files before it.

* `register` adds a theme in place of the one with its name;
* `load` loads a directory. -/

namespace Tinct

/-- The known themes by name. -/
structure ThemeLibrary where
  byName : SortedMap String Theme
deriving DecidableEq

namespace ThemeLibrary

/-- The collection without themes. -/
def empty : ThemeLibrary := ⟨.empty⟩

/-- Adds a theme, in place of the one that had its name. -/
def register (l : ThemeLibrary) (t : Theme) : ThemeLibrary := ⟨l.byName.insert t.name t⟩

/-- The names of the themes in order. -/
def names (l : ThemeLibrary) : List String := l.byName.keys

/-- Whether a theme has this name. -/
def knows (l : ThemeLibrary) (name : String) : Bool := l.byName.contains name

/-- The theme of a name. -/
def find (l : ThemeLibrary) (name : String) : Except Failure Theme :=
  match l.byName.find? name with
  | some t => .ok t
  | none => .error (.unknownTheme name l.names)

/-- The palette of the theme of a name. -/
def palette (l : ThemeLibrary) (name : String) : Except Failure Palette :=
  (l.find name).map Theme.palette

/-! ## Loading -/

/-- How the text of a theme file is read, given the name for a theme without one. -/
abbrev ThemeReader := String → String → Option Theme

/-- The theme of a text that comes from a path. -/
def readTheme (read : ThemeReader) (path fallback text : String) : Except Failure Theme :=
  match read fallback text with
  | some t => .ok t
  | none => .error (.badTheme path)

/-- Whether a file name is that of a theme file. -/
def isThemeFile (name : String) : Bool :=
  Path.extension? name = some "yaml" || Path.extension? name = some "yml"

section Loading

variable {m : Type → Type} [Monad m] [Workspace m]

/-- Keeps the names of the theme files in a directory, in ascending order. -/
def themeFiles (dir : String) (names : List String) : m (List String) := do
  let files ← (names.filter isThemeFile).filterM fun name => Workspace.isFile (Path.join dir name)
  return files.mergeSort (· ≤ ·)

/-- Loads files of a directory up to the first that cannot be used. -/
def loadFiles (read : ThemeReader) (dir : String) (l : ThemeLibrary) :
    List String → m (ThemeLibrary × Option Failure)
  | [] => return (l, none)
  | name :: rest => do
    let path := Path.join dir name
    match ← Workspace.readText path with
    | .error e => return (l, some (.file path e))
    | .ok text =>
      match readTheme read path (Path.stem name) text with
      | .error e => return (l, some e)
      | .ok t =>
        Workspace.report ⟨.debug, "Theme loaded", [("theme.name", t.name), ("theme.path", path)]⟩
        loadFiles read dir (l.register t) rest

/-- Loads the theme files of a directory and counts them.  The collection is returned also when a
file could not be used. -/
def load (read : ThemeReader) (l : ThemeLibrary) (dir : String) :
    m (ThemeLibrary × Except Failure Nat) := do
  match ← Workspace.listNames dir with
  | .error e => return (l, .error (.file dir e))
  | .ok names =>
    let files ← themeFiles dir names
    match ← loadFiles read dir l files with
    | (l, none) => return (l, .ok files.length)
    | (l, some e) => return (l, .error e)

end Loading

end ThemeLibrary

end Tinct
