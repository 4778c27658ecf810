import Tinct.Path
import Tinct.Settings
import Tinct.Toml.Document
import Tinct.Workspace

/-! # Sources of settings

Settings come from documents in files, of which later ones win over earlier ones, and from overrides
of single settings, which win over all documents.  A document may be optional.

* `Sources.withFile`, `Sources.withOptionalFile` and `Sources.withOverride` add sources;
* `Sources.load` reads the documents and gives the settings. -/

namespace Tinct

/-- A file with a document of settings. -/
structure Layer where
  path : String
  /-- Whether the file has to be there. -/
  isRequired : Bool
deriving DecidableEq, Repr

namespace Layer

/-- The path of a layer as it is named in errors, without needless parts. -/
def tidy (path : String) : String :=
  (if path.toList.head? = some '/' then "/" else "") ++ "/".intercalate (Path.parts path)

/-- The document of a text that comes from a path. -/
def document (path text : String) : Except SettingsError Settings.Document :=
  match Toml.parse? text with
  | some entries => .ok (Setting.entriesOfToml (some (tidy path)) entries)
  | none => .error .badDocument

section Loading

variable {m : Type → Type} [Monad m] [Workspace m]

/-- The path of the file of a layer, to which the usual extension may have to be added. -/
def find? (path : String) : m (Option String) := do
  if ← Workspace.isFile path then return some path
  if (Path.fileName? path).isNone then return none
  let extended := tidy path ++ ".toml"
  if ← Workspace.isFile extended then return some extended
  return none

/-- The path and the text of a layer. -/
def text (path : String) : m (Except SettingsError (String × String)) := do
  match ← find? path with
  | none => return .error (.missing ("configuration file \"" ++ path ++ "\" not found"))
  | some found =>
    match ← Workspace.readText found with
    | .error e => return .error (.missing e.message)
    | .ok text => return .ok (found, text)

/-- The document of a layer.  One that is not required and cannot be read counts as empty. -/
def load (l : Layer) : m (Except SettingsError Settings.Document) := do
  match ← text l.path with
  | .error e => return if l.isRequired then .error e else .ok []
  | .ok (path, text) => return document path text

/-- The documents of layers, up to the first that cannot be used. -/
def loadAll : List Layer → m (Except SettingsError (List Settings.Document))
  | [] => return .ok []
  | l :: rest => do
    match ← load l with
    | .error e => return .error e
    | .ok d => return (← loadAll rest).map (d :: ·)

end Loading

end Layer

/-- Where settings come from. -/
structure Sources where
  /-- The documents in ascending order of weight. -/
  layers : List Layer := []
  overrides : List (SettingPath × Setting) := []

namespace Sources

/-- Adds a document that has to be there. -/
def withFile (s : Sources) (path : String) : Sources :=
  { s with layers := s.layers ++ [⟨path, true⟩] }

/-- Adds a document that may be missing. -/
def withOptionalFile (s : Sources) (path : String) : Sources :=
  { s with layers := s.layers ++ [⟨path, false⟩] }

/-- Adds an override, in place of an earlier one with its path. -/
def withOverride (s : Sources) (path : String) (v : Setting) : Except SettingsError Sources :=
  match SettingPath.parse path with
  | .error e => .error (.badPath e)
  | .ok p => .ok { s with overrides := (s.overrides.filter (·.1 ≠ p)) ++ [(p, v)] }

/-- The settings of all sources. -/
def load {m : Type → Type} [Monad m] [Workspace m] (s : Sources) :
    m (Except SettingsError Settings) := do
  match ← Layer.loadAll s.layers with
  | .error e => return .error e
  | .ok documents => return Settings.ofDocuments documents s.overrides

end Sources

end Tinct
