import Tinct.Workspace
import Tinct.Settings.SettingsError

/-! # Failures

Everything that can go wrong for a user, with its wording. -/

namespace Tinct

/-- Why a request could not be met. -/
inductive Failure where
  /-- No lexer is known by this name, or suits this file or text. -/
  | noLexer (hint : String)
  /-- No theme has this name; the names of all themes are given. -/
  | unknownTheme (name : String) (available : List String)
  /-- A file or directory could not be used. -/
  | file (path : String) (error : FileError)
  /-- A theme file is not in the form of one. -/
  | badTheme (path : String)
  /-- The settings could not be read. -/
  | settings (error : SettingsError)
  /-- A text is not the JSON form of the wanted value. -/
  | badJson
deriving DecidableEq, Repr

namespace Failure

/-- The wording of a failure.  Where a document could not be read, the wording ends before the
details of the reader. -/
def message : Failure → String
  | noLexer hint => "No lexer found for '" ++ hint ++ "'"
  | unknownTheme name available =>
    "Unknown theme '" ++ name ++ "'. Available themes: " ++ ", ".intercalate available
  | file path error => "I/O error on " ++ path ++ ": " ++ error.message
  | badTheme path => "Invalid theme file " ++ path ++ ": "
  | settings error => "Configuration error: " ++ error.message
  | badJson => "Serialization error: "

/-- The wording of what lies behind a failure, if that is reported on its own. -/
def cause? : Failure → Option String
  | file _ error => some error.message
  | settings .badDocument => none
  | settings error => some error.message
  | _ => none

end Failure

end Tinct
