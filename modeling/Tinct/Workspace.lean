/-! # Workspaces

A workspace is where a program reads and writes files and reports what it does.  The operations are
given by a class, so that the same program runs on a disk and on a value that models one. -/

namespace Tinct

/-- Why a file operation failed. -/
inductive FileError where
  /-- Nothing has this path. -/
  | notFound
  /-- A file was wanted at the path of a directory. -/
  | isDirectory
  /-- A directory was wanted at the path of a file. -/
  | notDirectory
  /-- The content of the file is not text. -/
  | notText
  /-- The path, or a name in it, is longer than the system allows. -/
  | nameTooLong
  /-- Any other failure, in the words of the system. -/
  | other (reason : String)
deriving DecidableEq, Repr

/-- The wording of a file error. -/
def FileError.message : FileError → String
  | notFound => "No such file or directory (os error 2)"
  | isDirectory => "Is a directory (os error 21)"
  | notDirectory => "Not a directory (os error 20)"
  | notText => "stream did not contain valid UTF-8"
  | nameTooLong => "File name too long (os error 36)"
  | other reason => reason

/-- How important a report is, the most important last. -/
inductive LogLevel where
  | debug
  | info
  | warn
deriving DecidableEq, Repr

/-- The name of a level. -/
def LogLevel.text : LogLevel → String
  | debug => "DEBUG"
  | info => "INFO"
  | warn => "WARN"

/-- How important a level is. -/
def LogLevel.rank : LogLevel → Nat
  | debug => 0
  | info => 1
  | warn => 2

/-- A report: a message and named values, written as they are to be shown. -/
structure LogEntry where
  level : LogLevel
  message : String
  fields : List (String × String)
deriving DecidableEq, Repr

/-- The report on one line: level, message and fields. -/
def LogEntry.text (e : LogEntry) : String :=
  let fields := e.fields.map fun (name, value) => name ++ "=" ++ value
  " ".intercalate (e.level.text :: e.message :: fields)

/-- What a program needs of its surroundings. -/
class Workspace (m : Type → Type) where
  /-- The text of a file. -/
  readText : String → m (Except FileError String)
  /-- Replaces the content of a file, or makes the file. -/
  writeText : String → String → m (Except FileError Unit)
  /-- The names of everything in a directory, in no particular order. -/
  listNames : String → m (Except FileError (List String))
  /-- Whether a path is that of a file. -/
  isFile : String → m Bool
  /-- Takes note of a report. -/
  report : LogEntry → m Unit

end Tinct
