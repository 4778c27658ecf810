import Tinct.Toml.Numeral
import Tinct.Toml.Text

/-! # TOML statements

A TOML document is a list of statements, one to a line: a header that opens a table, a header that
adds a table to a list, or a value for a key.  A key is a list of names.

The reader of lists and inline tables is given the reader of the values in them, and `value?` ties
the knot with a bound on the nesting.

* `statements?` reads a document. -/

namespace Tinct.Toml

/-- A value as it is written: the entries of inline tables still have keys of several names. -/
inductive Written where
  /-- A string, a number, a truth value or a time. -/
  | plain (v : Toml)
  | list (items : List Written)
  | table (entries : List (List String × Written))

/-- A statement of a document. -/
inductive Statement where
  | header (key : List String)
  | itemHeader (key : List String)
  | entry (key : List String) (value : Written)

/-! ## Keys -/

/-- Whether a character can stand in a name without quotes. -/
def isBare (c : Char) : Bool := c.isAlphanum || c = '_' || c = '-'

/-- A name in a key. -/
def name? : Reader String
  | [] => none
  | c :: rest =>
    if c = '"' || c = '\'' then
      (lineString? c rest).map fun (name, behind) => (String.ofList name, behind)
    else
      let name := (c :: rest).takeWhile isBare
      if name.isEmpty then none else some (String.ofList name, (c :: rest).dropWhile isBare)

/-- The names of a key, with points between them. -/
def names? (source : List Char) : Option (List String × List Char) := do
  let (name, rest) ← name? (source.dropWhile isGap)
  match rest.dropWhile isGap with
  | '.' :: rest =>
    if rest.length < source.length then
      let (names, rest) ← names? rest
      return (name :: names, rest)
    else none
  | rest => return ([name], rest)
termination_by source.length

/-- How many names a key may have, and how many lists and inline tables may lie around a value. -/
def depthLimit : Nat := 79

/-- A key, which must not have too many names. -/
def key? (source : List Char) : Option (List String × List Char) :=
  (names? source).filter fun (key, _) => key.length ≤ depthLimit

/-! ## Values -/

/-- Whether a character can stand in the word of a number or a time. -/
def isWordChar (c : Char) : Bool :=
  c.isAlphanum || c = '+' || c = '-' || c = '.' || c = ':' || c = '_'

/-- The value that a word stands for. -/
def ofWord? (word : List Char) : Option Toml :=
  if word = ['t', 'r', 'u', 'e'] then some (.bool true)
  else if word = ['f', 'a', 'l', 's', 'e'] then some (.bool false)
  else
    ((integer? word).map Toml.integer).or <| ((float? word).map Toml.float).or <|
      (time? word).map fun t => .time (String.ofList t)

/-- A value that is a word.  Behind a date and a blank, the time of day may follow. -/
def wordValue? (source : List Char) : Option (Toml × List Char) :=
  let word := source.takeWhile isWordChar
  let rest := source.dropWhile isWordChar
  match date? word, rest with
  | some (date, []), ' ' :: c :: behind =>
    if c.isDigit then
      (timeOn? date ((c :: behind).takeWhile isWordChar)).map fun t =>
        (.time (String.ofList t), (c :: behind).dropWhile isWordChar)
    else some (.time (String.ofList date), rest)
  | _, _ => (ofWord? word).map (·, rest)

/-- The text behind blanks, line endings and comments. -/
def skipLines (inComment : Bool) : List Char → List Char
  | [] => []
  | c :: rest =>
    if c = '\n' then skipLines false rest
    else if inComment && isInline c || isGap c then skipLines inComment rest
    else if c = '#' then skipLines true rest
    else c :: rest

/-- The rest of a list, and the text behind its bracket.  A comma may stand behind the last item. -/
def items? (value : Reader Written) (source : List Char) : Option (List Written × List Char) :=
  match skipLines false source with
  | ']' :: rest => some ([], rest)
  | start => do
    let (item, rest) ← value start
    match skipLines false rest with
    | ']' :: rest => return ([item], rest)
    | ',' :: rest =>
      if rest.length < source.length then
        let (items, rest) ← items? value rest
        return (item :: items, rest)
      else none
    | _ => none
termination_by source.length

/-- A key and its value. -/
def pair? (value : Reader Written) : Reader (List String × Written) := fun source => do
  let (key, rest) ← key? source
  let (v, rest) ← value ((← expect? '=' rest).dropWhile isGap)
  return ((key, v), rest.dropWhile isGap)

/-- The entries of an inline table from the first one on, and the text behind its brace. -/
def pairs? (value : Reader Written) (source : List Char) :
    Option (List (List String × Written) × List Char) := do
  let (pair, rest) ← pair? value source
  match rest with
  | '\x7d' :: rest => return ([pair], rest)
  | ',' :: rest =>
    if rest.length < source.length then
      let (pairs, rest) ← pairs? value rest
      return (pair :: pairs, rest)
    else none
  | _ => none
termination_by source.length

/-- Reads a value that is no list and no table. -/
def plain? : Reader Written := fun source =>
  match source with
  | '"' :: _ => (string? '"' source).map fun (t, rest) => (.plain (.text t), rest)
  | '\'' :: _ => (string? '\'' source).map fun (t, rest) => (.plain (.text t), rest)
  | _ => (wordValue? source).map fun (v, rest) => (.plain v, rest)

/-- Reads a value with at most the given number of lists and tables around each other. -/
def value? : Nat → Reader Written
  | 0 => plain?
  | depth + 1 => fun source =>
    match source with
    | '[' :: rest => (items? (value? depth) rest).map fun (items, rest) => (.list items, rest)
    | '\x7b' :: rest =>
      match rest.dropWhile isGap with
      | '\x7d' :: rest => some (.table [], rest)
      | _ => (pairs? (value? depth) rest).map fun (entries, rest) => (.table entries, rest)
    | _ => plain? source

/-! ## Lines -/

/-- The text from the next line on, if at most a comment stands before it. -/
def lineEnd? (source : List Char) : Option (List Char) :=
  let rest := source.dropWhile isGap
  let rest := if rest.head? = some '#' then rest.dropWhile isInline else rest
  match rest with
  | [] => some []
  | c :: rest => if c = '\n' then some rest else none

/-- The statement on a line, if any, and the text from the next line on. -/
def statement? : Reader (Option Statement) := fun source =>
  match lineEnd? source with
  | some rest => some (none, rest)
  | none => do
    let (statement, rest) ←
      match source.dropWhile isGap with
      | '[' :: '[' :: rest => do
        let (key, rest) ← key? rest
        pure (Statement.itemHeader key, ← expect? ']' (← expect? ']' rest))
      | '[' :: rest => do
        let (key, rest) ← key? rest
        pure (Statement.header key, ← expect? ']' rest)
      | rest => do
        let ((key, v), rest) ← pair? (value? depthLimit) rest
        pure (Statement.entry key v, rest)
    return (some statement, ← lineEnd? rest)

/-- The statements of a document whose lines end in line feeds. -/
def statements? (source : List Char) : Option (List Statement) :=
  if source.isEmpty then some []
  else do
    let (statement, rest) ← statement? source
    if rest.length < source.length then
      return statement.toList ++ (← statements? rest)
    else none
termination_by source.length

end Tinct.Toml
