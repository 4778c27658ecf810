/-! # Errors in settings -/

namespace Tinct

/-- What is wrong with the path of a setting. -/
inductive PathError where
  /-- The path does not start with a name. -/
  | noName
  /-- A name is followed by something that continues no path. -/
  | badStep
  /-- A bracket is not followed by an integer. -/
  | badIndex
  /-- A position is beyond all lists. -/
  | hugeIndex
deriving DecidableEq, Repr

/-- Why settings could not be read. -/
inductive SettingsError where
  /-- A document of settings is not well formed. -/
  | badDocument
  /-- A required document is missing or not text. -/
  | missing (reason : String)
  /-- A section has the wrong form. -/
  | badSection (reason : String)
  /-- A setting has a value that cannot be converted to the wanted kind. -/
  | wrongKind (found wanted key : String) (origin : Option String)
  /-- The path of an override is malformed. -/
  | badPath (error : PathError)
deriving DecidableEq, Repr

namespace SettingsError

/-- The wording of an error.  That of a malformed document is left to its reader. -/
def message : SettingsError → String
  | badDocument => ""
  | missing reason => reason
  | badSection reason => reason
  | wrongKind found wanted key origin =>
    "invalid type: " ++ found ++ ", expected " ++ wanted ++ " for key \x60" ++ key ++ "\x60" ++
      (match origin with
      | some file => " in " ++ file
      | none => "")
  | badPath .noName => "IsA"
  | badPath .badStep => "Char"
  | badPath .badIndex => "Digit"
  | badPath .hugeIndex => "Map on Result"

end SettingsError

end Tinct
