import Tinct.Grammar
import Tinct.Json.Reader
import Tinct.Lexer
import Tinct.Text.Blank

/-! # The JSON lexer

The lexemes of JSON are blanks, strings, numbers, constants and punctuation.  A string that is
followed by a colon, blanks aside, is the name of a member.  The lexer also takes texts that are no
JSON documents: a string without its closing quote is an error up to where it breaks off, and any
other character that starts no lexeme is an error of its own. -/

namespace Tinct.Lexer.JsonText

/-- The kinds of JSON lexemes. -/
inductive Kind where
  | blank
  | string
  | integer
  | float
  | constant
  | colon
  | punctuation
  /-- A string without its closing quote. -/
  | openString
deriving DecidableEq, Repr

open Pattern in
/-- The characters that a string can hold: any but quote and backslash, or a backslash followed by
any but a line feed. -/
def stringContent : Pattern :=
  many (either (noneOf "\"\\") (seq (text "\\") (noneOf "\n")))

/-- A decimal digit. -/
def digit : Pattern := .one Char.isDigit

open Pattern in
/-- The whole part of a number, with its sign. -/
def wholePart : Pattern :=
  seq (optional (text "-")) (either (text "0") (seq (anyOf "123456789") (many digit)))

open Pattern in
/-- The exponent of a number. -/
def exponentPart : Pattern := inOrder [anyOf "eE", optional (anyOf "+-"), many1 digit]

open Pattern in
/-- The rules of JSON. -/
def grammar : Grammar Kind where
  rules :=
    [⟨.blank, many1 (anyOf " \t\r\n")⟩,
     ⟨.string, inOrder [text "\"", stringContent, text "\""]⟩,
     ⟨.integer, wholePart⟩,
     ⟨.float,
      either (inOrder [wholePart, text ".", many1 digit, optional exponentPart])
        (seq wholePart exponentPart)⟩,
     ⟨.constant, oneOfTexts ["true", "false", "null"]⟩,
     ⟨.colon, text ":"⟩,
     ⟨.punctuation, anyOf "\x7b\x7d[],"⟩,
     ⟨.openString, seq (text "\"") stringContent⟩]

/-- Whether the first lexeme that is not blank is a colon. -/
def colonFollows : List (Lexeme Kind) → Bool
  | [] => false
  | l :: rest =>
    match l.kind with
    | some .blank => colonFollows rest
    | some .colon => true
    | _ => false

/-- The category of a lexeme; that of a string depends on whether it names a member. -/
def category (namesMember : Bool) : Option Kind → Category
  | some .blank => .ofKey "Text.Whitespace"
  | some .string => .ofKey (if namesMember then "Name.Tag" else "Literal.String.Double")
  | some .integer => .ofKey "Literal.Number.Integer"
  | some .float => .ofKey "Literal.Number.Float"
  | some .constant => .ofKey "Keyword.Constant"
  | some .colon => .ofKey "Punctuation"
  | some .punctuation => .ofKey "Punctuation"
  | some .openString => .ofKey "Error"
  | none => .ofKey "Error"

/-- The fragments of a list of lexemes. -/
def classify : List (Lexeme Kind) → List Fragment
  | [] => []
  | l :: rest => ⟨category (colonFollows rest) l.kind, String.ofList l.text⟩ :: classify rest

/-- A text that starts like an array or an object is probably JSON, and nearly certainly if all of
it is a document. -/
def confidence (source : String) : Score :=
  match (dropLeadingBlanks source.toList).head? with
  | some c =>
    if c = '[' || c = '\x7b' then
      if Json.isDocument source then .hundredths 90 else .hundredths 20
    else .zero
  | none => .zero

end JsonText

/-- The lexer for JSON. -/
def json : Lexer where
  name := "json"
  filenames := ["*.json", "*.jsonl", "*.geojson", "Pipfile.lock"]
  confidence := JsonText.confidence
  fragments source := JsonText.classify (JsonText.grammar.lexemes source.toList)

end Tinct.Lexer
