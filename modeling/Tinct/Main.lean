import Tinct.CommandLine

/-! # The program

The workspace of the program is the disk, and reports go to the standard error stream. -/

namespace Tinct

/-- The file error of a failure of the system. -/
def FileError.ofIO : IO.Error → FileError
  | .noFileOrDirectory _ _ _ => .notFound
  | .noSuchThing _ _ _ => .notFound
  | .inappropriateType _ code _ => if code = 21 then .isDirectory else .notDirectory
  | e => .other (toString e)

/-- Carries out an action of the disk. -/
def attempt {α : Type} (x : IO α) : IO (Except FileError α) := do
  try
    return .ok (← x)
  catch e =>
    return .error (.ofIO e)

instance : Workspace IO where
  readText path := do
    match ← attempt (IO.FS.readBinFile path) with
    | .error e => return .error e
    | .ok bytes =>
      match String.fromUTF8? bytes with
      | some text => return .ok text
      | none => return .error .notText
  writeText path text := attempt (IO.FS.writeFile path text)
  listNames dir := attempt do
    let entries ← (← IO.FS.realPath dir).readDir
    return (entries.map (·.fileName)).toList
  isFile path := do
    match ← attempt (do (← IO.FS.realPath path).metadata) with
    | .ok data => return data.type == .file
    | .error _ => return false
  report entry := do IO.eprintln entry.text

end Tinct

/-- Runs the program and gives its exit code. -/
def main (args : List String) : IO UInt32 := do
  let outcome ← Tinct.CommandLine.run (m := IO) args
  IO.print outcome.stdout
  IO.eprint outcome.stderr
  return outcome.exit.toUInt32
