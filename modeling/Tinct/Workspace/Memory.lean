import Tinct.Path
import Tinct.SortedMap
import Tinct.Workspace

/-! # Workspaces in memory

A workspace as a value: the files and directories below one directory, and the reports so far.  What
lies outside that directory cannot be seen; no names are found there.

* `locate` follows a path to a place;
* the instance at the end makes `StateM Memory` a workspace. -/

namespace Tinct

/-- What a place of a workspace holds. -/
inductive Content where
  | directory
  /-- A file whose bytes are text. -/
  | text (text : String)
  /-- A file whose bytes are not text. -/
  | binary
deriving DecidableEq, Repr

/-- The content of a workspace, by the names on the way to it, and the reports, the latest first. -/
structure Memory where
  places : SortedMap (List String) Content := .empty
  log : List LogEntry := []
deriving DecidableEq

namespace Memory

/-- Where a path leads. -/
inductive Place where
  /-- To names below the directory of the workspace. -/
  | inside (names : List String)
  /-- To a directory that cannot be seen. -/
  | outside
deriving DecidableEq, Repr

/-- What a place holds; the place without names is the directory itself. -/
def content? (w : Memory) : Place → Option Content
  | .outside => some .directory
  | .inside [] => some .directory
  | .inside names => w.places.find? names

/-- What a part of a path leads to from a place, which has to be a directory.  A name has at most
255 bytes. -/
def enter (w : Memory) (place : Place) (part : String) : Except FileError Place :=
  match w.content? place, place with
  | none, _ => .error .notFound
  | some .directory, .inside names =>
    if 255 < part.utf8ByteSize then .error .nameTooLong
    else if part ≠ ".." then .ok (.inside (names ++ [part]))
    else if names = [] then .ok .outside
    else .ok (.inside names.dropLast)
  | some .directory, .outside => if part = ".." then .ok .outside else .error .notFound
  | some _, _ => .error .notDirectory

/-- Whether a path can only be that of a directory. -/
def endsInDirectory (path : String) : Bool :=
  match (path.toList.splitOn '/').getLast? with
  | some last => last = [] || last = ['.']
  | none => false

/-- Whether a path ends in a name that slashes follow. -/
def endsInSlash (path : String) : Bool :=
  path.toList.getLast? = some '/' &&
    ((path.toList.splitOn '/').filter (· ≠ [])).getLast?.any (· ≠ ['.'])

/-- The place that a path leads to; it may be empty, but the way to it has to exist.  A path holds
no null character and has less than 4096 bytes. -/
def locate (w : Memory) (path : String) : Except FileError Place :=
  if path.toList.contains '\x00' then
    .error (.other "file name contained an unexpected NUL byte")
  else if path = "" then .error .notFound
  else if 4096 ≤ path.utf8ByteSize then .error .nameTooLong
  else
    (Path.parts path).foldlM w.enter
      (if path.toList.head? = some '/' then .outside else .inside [])

/-- The text of a file. -/
def readText (w : Memory) (path : String) : Except FileError String := do
  let place ← w.locate path
  match w.content? place with
  | none => .error .notFound
  | some .directory => .error .isDirectory
  | some (.text text) => if endsInDirectory path then .error .notDirectory else .ok text
  | some .binary => .error (if endsInDirectory path then .notDirectory else .notText)

/-- The workspace with a text as the content of a file.  No file is written through a path that ends
in a slash, even if there is a file of that name. -/
def writeText (w : Memory) (path text : String) : Except FileError Memory := do
  match ← w.locate path with
  | .outside => .error .isDirectory
  | .inside names =>
    match w.content? (.inside names) with
    | some .directory => .error .isDirectory
    | some _ =>
      if endsInSlash path then .error .isDirectory
      else if endsInDirectory path then .error .notDirectory
      else .ok { w with places := w.places.insert names (.text text) }
    | none =>
      if endsInSlash path then .error .isDirectory
      else if endsInDirectory path then .error .notFound
      else .ok { w with places := w.places.insert names (.text text) }

/-- The names of everything in a directory, in ascending order. -/
def listNames (w : Memory) (path : String) : Except FileError (List String) := do
  let place ← w.locate path
  match w.content? place, place with
  | none, _ => .error .notFound
  | some .directory, .inside names =>
    .ok ((w.places.keys.filter fun k => k.dropLast = names && k ≠ []).filterMap List.getLast?)
  | some .directory, .outside => .ok []
  | some _, _ => .error .notDirectory

/-- Whether a path is that of a file. -/
def isFile (w : Memory) (path : String) : Bool :=
  match w.locate path with
  | .error _ => false
  | .ok place =>
    !endsInDirectory path &&
      match w.content? place with
      | none => false
      | some content => content ≠ .directory

/-- Adds a content under names, with the directories around it. -/
def put (w : Memory) (names : List String) (content : Content) : Memory :=
  let around := (List.range (names.length - 1)).map fun n => names.take (n + 1)
  let missing := around.filter fun dir => !w.places.contains dir
  let places := missing.foldl (fun places dir => places.insert dir .directory) w.places
  { w with places := places.insert names content }

/-- The files whose content is a text that they did not hold in another workspace, with their
paths in ascending order. -/
def changedTexts (before after : Memory) : List (String × String) :=
  let changed := after.places.entries.filterMap fun (names, content) =>
    match content with
    | .text text =>
      if before.places.find? names = some content then none else some ("/".intercalate names, text)
    | _ => none
  (SortedMap.ofList changed).entries

instance : Workspace (StateM Memory) where
  readText path := do return (← get).readText path
  writeText path text := do
    match (← get).writeText path text with
    | .error e => return .error e
    | .ok w =>
      set w
      return .ok ()
  listNames path := do return (← get).listNames path
  isFile path := do return (← get).isFile path
  report entry := modify fun w => { w with log := entry :: w.log }

end Memory

end Tinct
