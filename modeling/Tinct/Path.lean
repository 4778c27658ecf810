/-! # Paths

A path is a text whose parts are separated by slashes.  Empty parts and parts that are a single dot
name nothing, so `a//b/./` and `a/b` have the same parts. -/

namespace Tinct.Path

/-- The parts of a path that name something; a part of two dots is among them. -/
def parts (path : String) : List String :=
  ((path.toList.splitOn '/').map String.ofList).filter fun part => part ≠ "" && part ≠ "."

/-- The last part of a path, if it is a name. -/
def fileName? (path : String) : Option String :=
  match (parts path).getLast? with
  | some name => if name = ".." then none else some name
  | none => none

/-- A path extended by a name. -/
def join (dir name : String) : String :=
  if dir = "" || dir.toList.getLast? = some '/' then dir ++ name else dir ++ "/" ++ name

/-- A name cut at its last dot: the stem and the extension behind the dot.  A dot at the start of
the name does not count. -/
def splitExtension (name : String) : String × Option String :=
  let reversed := name.toList.reverse
  let extension := (reversed.takeWhile (· ≠ '.')).reverse
  match (reversed.dropWhile (· ≠ '.')).drop 1 with
  | [] => (name, none)
  | stem => (String.ofList stem.reverse, some (String.ofList extension))

/-- The part of a name before its extension. -/
def stem (name : String) : String := (splitExtension name).1

/-- The extension of a name, without its dot. -/
def extension? (name : String) : Option String := (splitExtension name).2

end Tinct.Path
