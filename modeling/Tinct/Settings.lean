import Tinct.Preparation
import Tinct.Settings.Section
import Tinct.Settings.SettingPath

/-! # Settings

What a user can set: how source texts are prepared, how results are written, and where to look for
themes.  Settings are read from a tree that documents and single overrides have been stored in, one
after the other, over the defaults.

* `ofTree` reads settings from a tree;
* `ofDocuments` is the settings of documents and overrides. -/

namespace Tinct

/-- The settings of a program. -/
structure Settings where
  preparation : Preparation := {}
  /-- Whether results are written on several lines. -/
  pretty : Bool := true
  /-- What is put behind the path of a source file to name the file of its tokens. -/
  tokenFileSuffix : String := ".tokens.json"
  /-- The directories with further themes. -/
  themeDirs : List String := []
deriving DecidableEq, Repr

namespace Settings

/-- The tree of all settings with their defaults. -/
def defaultTree : Setting :=
  .table none [
    ("lexing", .table none [
      ("normalize_line_endings", .scalar none (.bool true)),
      ("strip_newlines", .scalar none (.bool true)),
      ("ensure_trailing_newline", .scalar none (.bool true)),
      ("tab_size", .scalar none (.integer 0))]),
    ("output", .table none [
      ("pretty", .scalar none (.bool true)),
      ("token_file_suffix", .scalar none (.text ".tokens.json"))]),
    ("themes", .table none [
      ("search_paths", .list none [])])]

/-- The section on the preparation of source texts. -/
def lexing : Section := ⟨"lexing", "LexingConfig", 4⟩

/-- The section on the results. -/
def output : Section := ⟨"output", "OutputConfig", 2⟩

/-- The section on themes. -/
def themes : Section := ⟨"themes", "ThemesConfig", 1⟩

/-- Reads the section on the preparation of source texts. -/
def readLexing (s : Setting) : Except SettingsError Preparation := do
  return {
    normalizeLineEndings := ← lexing.field s 0 "normalize_line_endings" Setting.toBool
    stripNewlines := ← lexing.field s 1 "strip_newlines" Setting.toBool
    ensureTrailingNewline := ← lexing.field s 2 "ensure_trailing_newline" Setting.toBool
    tabSize := ← lexing.field s 3 "tab_size" Setting.toNat }

/-- The section of a tree under a name. -/
def sectionOf (tree : Setting) (name : String) : Except SettingsError Setting :=
  match tree.entry? name with
  | some s => .ok s
  | none => .error (.badSection ("missing field \x60" ++ name ++ "\x60"))

/-- Reads settings from a tree. -/
def ofTree (tree : Setting) : Except SettingsError Settings := do
  let preparation ← readLexing (← sectionOf tree lexing.key)
  let s ← sectionOf tree output.key
  let pretty ← output.field s 0 "pretty" Setting.toBool
  let suffix ← output.field s 1 "token_file_suffix" Setting.toText
  let s ← sectionOf tree themes.key
  let dirs ← themes.fieldD s 0 "search_paths" Setting.toTexts []
  return ⟨preparation, pretty, suffix, dirs⟩

/-- The entries of a document, and settings that win over all documents. -/
abbrev Document := List (String × Setting)

/-- The settings of documents, in ascending order of weight, and of overrides, which are stored in
their order over all documents. -/
def ofDocuments (documents : List Document) (overrides : List (SettingPath × Setting)) :
    Except SettingsError Settings :=
  let tree := documents.foldl (fun tree d => SettingPath.putAll d tree) defaultTree
  ofTree (overrides.foldl (fun tree (path, v) => path.put v tree) tree)

end Settings

end Tinct
