import Tinct.Grammar
import Tinct.Lexer
import Tinct.Text.Window
import Tinct.Text.Word

/-! # The Python lexer

Words are classified by tables of reserved and built-in words; the name that a definition introduces
is classified by the kind of the definition.  A string literal is recognised by its opening quote
and then scanned to its end, which for a literal on one line is at the latest the end of that line.

* `StringForm.extent` finds the end of a string literal;
* `classify` gives the lexemes their categories;
* `confidence` looks for an interpreter line or a typical statement. -/

namespace Tinct.Lexer.Python

/-- The forms of string literals. -/
inductive StringForm where
  /-- In single quotes. -/
  | single
  /-- In double quotes. -/
  | double
  /-- In three quotes of either kind. -/
  | doc
deriving DecidableEq, Repr

/-- The kinds of Python lexemes. -/
inductive Kind where
  | blank
  | newline
  | continuation
  | comment
  | function
  | classWord
  | importWord
  | wordOperator
  | keyword
  | constant
  | builtin
  | pseudoBuiltin
  | decorator
  | name
  | string (form : StringForm)
  | hexadecimal
  | integer
  | float
  | operator
  | punctuation
deriving DecidableEq, Repr

/-! ## Rules -/

/-- The words that name the lexemes of `Kind.importWord`. -/
def importWords : List String := ["import", "from"]

/-- The operators that are words. -/
def operatorWords : List String := ["and", "or", "not", "in", "is"]

/-- The other reserved words. -/
def keywords : List String :=
  ["as", "assert", "async", "await", "break", "continue", "del", "elif", "else", "except",
   "finally", "for", "global", "if", "lambda", "nonlocal", "pass", "raise", "return", "try",
   "while", "with", "yield"]

/-- The words that stand for values. -/
def constants : List String := ["True", "False", "None"]

/-- The names of built-in functions and types. -/
def builtins : List String :=
  ["abs", "all", "any", "bool", "dict", "enumerate", "filter", "float", "getattr", "hasattr",
   "int", "isinstance", "iter", "len", "list", "map", "max", "min", "next", "object", "open",
   "print", "range", "repr", "reversed", "set", "setattr", "sorted", "str", "sum", "super",
   "tuple", "type", "zip"]

/-- The names that by custom refer to the object or class at hand. -/
def pseudoBuiltins : List String := ["self", "cls"]

/-- Whether a character can start a name. -/
def startsName (c : Char) : Bool := c.isAlpha || c = '_'

/-- Whether a character can continue a name. -/
def continuesName (c : Char) : Bool := c.isAlphanum || c = '_'

/-- Whether a character is a decimal digit or an underscore. -/
def isDigitOrBar (c : Char) : Bool := c.isDigit || c = '_'

/-- Whether a character is a hexadecimal digit or an underscore. -/
def isHexOrBar (c : Char) : Bool :=
  c.isDigit || 'a' ≤ c && c ≤ 'f' || 'A' ≤ c && c ≤ 'F' || c = '_'

/-- A decimal digit. -/
def digit : Pattern := .one Char.isDigit

open Pattern in
/-- A digit with all digits and underscores after it. -/
def digits : Pattern := seq digit (many (one isDigitOrBar))

open Pattern in
/-- The exponent of a number. -/
def exponentPart : Pattern := inOrder [anyOf "eE", optional (anyOf "+-"), many1 digit]

open Pattern in
/-- Up to two letters and an opening quote. -/
def opening (quote : String) : Pattern :=
  inOrder [optional (anyOf "rRbBuUfF"), optional (anyOf "rRbBuUfF"), text quote]

open Pattern in
/-- The rules of Python; reserved words go before names. -/
def rules : List (Rule Kind) :=
  [⟨.blank, many1 (anyOf " \t\x0c")⟩,
   ⟨.newline, text "\n"⟩,
   ⟨.continuation, text "\\\n"⟩,
   ⟨.comment, seq (text "#") (many (noneOf "\n"))⟩,
   ⟨.function, text "def"⟩,
   ⟨.classWord, text "class"⟩,
   ⟨.importWord, oneOfTexts importWords⟩,
   ⟨.wordOperator, oneOfTexts operatorWords⟩,
   ⟨.keyword, oneOfTexts keywords⟩,
   ⟨.constant, oneOfTexts constants⟩,
   ⟨.builtin, oneOfTexts builtins⟩,
   ⟨.pseudoBuiltin, oneOfTexts pseudoBuiltins⟩,
   ⟨.decorator,
    inOrder [text "@", one startsName, many (one fun c => continuesName c || c = '.')]⟩,
   ⟨.name, seq (one startsName) (many (one continuesName))⟩,
   ⟨.string .single, opening "'"⟩,
   ⟨.string .double, opening "\""⟩,
   ⟨.hexadecimal, inOrder [text "0", anyOf "xX", many1 (one isHexOrBar)]⟩,
   ⟨.integer, digits⟩,
   ⟨.float,
    either (inOrder [digits, text ".", many (one isDigitOrBar), optional exponentPart])
      (either (inOrder [text ".", digits, optional exponentPart]) (seq digits exponentPart))⟩,
   ⟨.operator, either (many1 (anyOf "-+*/%=<>!&|^~")) (text "@")⟩,
   ⟨.punctuation, anyOf "()[]\x7b\x7d:;,."⟩]

/-! ## String literals -/

/-- How far a literal in three quotes reaches into the text behind its opening: to the end of the
first three quotes in a row that no backslash hides, or over all of the text. -/
def docLength (quote : Char) : List Char → Nat
  | [] => 0
  | '\\' :: _ :: rest => docLength quote rest + 2
  | c :: rest =>
    if [quote, quote, quote].isPrefixOf (c :: rest) then 3 else docLength quote rest + 1

/-- How far a literal on one line reaches into the text behind its opening: to the end of the first
quote that no backslash hides, to the line feed before it, or over all of the text. -/
def lineLength (quote : Char) : List Char → Nat
  | [] => 0
  | '\\' :: _ :: rest => lineLength quote rest + 2
  | c :: rest =>
    if c = '\n' then 0 else if c = quote then 1 else lineLength quote rest + 1

/-- The form of a literal that opens with a quote in front of the given text, and how far it reaches
into that text. -/
def StringForm.extent (form : StringForm) (quote : Char) (behind : List Char) : StringForm × Nat :=
  match [quote, quote].isPrefixOf? behind with
  | some body => (.doc, docLength quote body + 2)
  | none => (form, lineLength quote behind)

/-- Extends the opening of a string literal to the whole literal. -/
def extend (kind : Kind) (found behind : List Char) : Kind × Nat :=
  match kind with
  | .string form =>
    let (form, more) := form.extent (found.getLast?.getD '"') behind
    (.string form, more)
  | kind => (kind, 0)

/-- The grammar of Python. -/
def grammar : Grammar Kind := ⟨rules, extend⟩

/-! ## Categories -/

/-- The category of a lexeme, names that are being defined aside. -/
def category : Option Kind → Category
  | some .blank => .ofKey "Text.Whitespace"
  | some .newline => .ofKey "Text.Whitespace"
  | some .continuation => .ofKey "Text"
  | some .comment => .ofKey "Comment.Single"
  | some .function => .ofKey "Keyword"
  | some .classWord => .ofKey "Keyword"
  | some .importWord => .ofKey "Keyword.Namespace"
  | some .wordOperator => .ofKey "Operator.Word"
  | some .keyword => .ofKey "Keyword"
  | some .constant => .ofKey "Keyword.Constant"
  | some .builtin => .ofKey "Name.Builtin"
  | some .pseudoBuiltin => .ofKey "Name.Builtin.Pseudo"
  | some .decorator => .ofKey "Name.Decorator"
  | some .name => .ofKey "Name"
  | some (.string .single) => .ofKey "Literal.String.Single"
  | some (.string .double) => .ofKey "Literal.String.Double"
  | some (.string .doc) => .ofKey "Literal.String.Doc"
  | some .hexadecimal => .ofKey "Literal.Number.Hex"
  | some .integer => .ofKey "Literal.Number.Integer"
  | some .float => .ofKey "Literal.Number.Float"
  | some .operator => .ofKey "Operator"
  | some .punctuation => .ofKey "Punctuation"
  | none => .ofKey "Error"

/-- Whether a lexeme can be the name that a definition introduces. -/
def isNameLike : Option Kind → Bool
  | some .name => true
  | some .builtin => true
  | some .pseudoBuiltin => true
  | _ => false

/-- The category that a name right after a lexeme gets from it, given the one that a name in place
of the lexeme would have got.  Blanks keep it; a line break does not. -/
def defines (pending : Option Category) : Option Kind → Option Category
  | some .function => some (.ofKey "Name.Function")
  | some .classWord => some (.ofKey "Name.Class")
  | some .blank => pending
  | _ => none

/-- The fragments of a list of lexemes. -/
def classify (pending : Option Category) : List (Lexeme Kind) → List Fragment
  | [] => []
  | l :: rest =>
    let own := category l.kind
    let given := if isNameLike l.kind then pending.getD own else own
    ⟨given, String.ofList l.text⟩ :: classify (defines pending l.kind) rest

/-! ## Confidence -/

/-- Whether a word ends somewhere in the digits and dots at the start of a text, given the character
before it. -/
def versionEnds (before : Char) : List Char → Bool
  | [] => isWordBoundary (some before) none
  | c :: rest =>
    isWordBoundary (some before) (some c) || ((c.isDigit || c = '.') && versionEnds c rest)

/-- Whether the first line of a text names the interpreter as a word, which digits and dots may
follow. -/
def namesInterpreter (before : Char) : List Char → Bool
  | [] => false
  | c :: rest =>
    c ≠ '\n' &&
      ((isWordBoundary (some before) (some c) &&
          match "python".toList.isPrefixOf? (c :: rest) with
          | some behind => versionEnds 'n' behind
          | none => false) ||
        namesInterpreter c rest)

/-- Whether a text starts with an interpreter line for Python. -/
def hasInterpreterLine (text : List Char) : Bool :=
  match "#!".toList.isPrefixOf? text with
  | some rest => namesInterpreter '!' rest
  | none => false

/-- Whether a text starts with the given word and a blank, then a run of at least one character of a
class, and then an end that passes the test. -/
def opensWith (word : String) (ofRun : Char → Bool) (ends : List Char → Bool)
    (line : List Char) : Bool :=
  match (word.toList ++ [' ']).isPrefixOf? line with
  | some rest => (rest.head?.any ofRun) && ends (rest.dropWhile ofRun)
  | none => false

/-- Whether a line starts like an import or a definition. -/
def isTypicalLine (line : List Char) : Bool :=
  opensWith "import" isWordChar (fun _ => true) line ||
    opensWith "from" (fun c => isWordChar c || c = '.') (" import ".toList.isPrefixOf ·) line ||
    opensWith "def" isWordChar (·.head? = some '(') line ||
    opensWith "class" isWordChar (fun end_ => end_.head? = some '(' || end_.head? = some ':') line

/-- An interpreter line settles the language; an import or a definition at the start of a line
speaks for it.  Only the first thousand bytes count. -/
def confidence (source : String) : Score :=
  let start := window 1000 source.toList
  if hasInterpreterLine start then .hundredths 100
  else if (start.splitOn '\n').any isTypicalLine then .hundredths 40
  else .zero

end Python

/-- The lexer for Python. -/
def python : Lexer where
  name := "python"
  aliases := ["py", "python3", "py3"]
  filenames := ["*.py", "*.pyw", "*.pyi", "SConstruct", "SConscript"]
  confidence := Python.confidence
  fragments source := Python.classify none (Python.grammar.lexemes source.toList)

end Tinct.Lexer
