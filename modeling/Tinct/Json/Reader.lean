import Tinct.Json.Token

/-! # Reading JSON documents

A document is read token by token.  The state of the reader holds the arrays and objects that are
still open, the innermost first, and what may come next; `step` takes one token.  A document is
complete when a value is complete and nothing is open. -/

namespace Tinct.Json

/-- An open array or object with what it holds so far, the latest first. -/
inductive Frame where
  /-- An array of which a further item is open. -/
  | array (items : List Json)
  /-- An object in which the value of the named member is open. -/
  | member (members : List (Text × Json)) (name : Text)

/-- What a reader expects next. -/
inductive Reading where
  /-- A value. -/
  | value (frames : List Frame)
  /-- The first item of an array, or its end. -/
  | firstItem (frames : List Frame)
  /-- The first name of an object, or its end. -/
  | firstName (frames : List Frame)
  /-- A further name of an object. -/
  | name (members : List (Text × Json)) (frames : List Frame)
  /-- The colon after a name. -/
  | colon (members : List (Text × Json)) (name : Text) (frames : List Frame)
  /-- What follows a complete value. -/
  | complete (v : Json) (frames : List Frame)

namespace Reading

/-- Takes the first token of a value. -/
def startValue (frames : List Frame) : Token → Option Reading
  | .null => some (.complete .null frames)
  | .bool b => some (.complete (.bool b) frames)
  | .number n => some (.complete (.number n) frames)
  | .string t => some (.complete (.string t) frames)
  | .openBracket => some (.firstItem frames)
  | .openBrace => some (.firstName frames)
  | _ => none

/-- Takes the next token. -/
def step : Reading → Token → Option Reading
  | value frames, t => startValue frames t
  | firstItem frames, .closeBracket => some (.complete (.array []) frames)
  | firstItem frames, t => startValue (.array [] :: frames) t
  | firstName frames, .closeBrace => some (.complete (.object []) frames)
  | firstName frames, .string key => some (.colon [] key frames)
  | firstName _, _ => none
  | name members frames, .string key => some (.colon members key frames)
  | name _ _, _ => none
  | colon members key frames, .colon => some (.value (.member members key :: frames))
  | colon _ _ _, _ => none
  | complete v (.array items :: frames), .comma => some (.value (.array (v :: items) :: frames))
  | complete v (.array items :: frames), .closeBracket =>
    some (.complete (.array (v :: items).reverse) frames)
  | complete v (.member members key :: frames), .comma =>
    some (.name ((key, v) :: members) frames)
  | complete v (.member members key :: frames), .closeBrace =>
    some (.complete (.object ((key, v) :: members).reverse) frames)
  | complete _ _, _ => none

/-- The document that was read, if it is complete. -/
def document? : Reading → Option Json
  | complete v [] => some v
  | _ => none

end Reading

/-- The value of a list of tokens. -/
def ofTokens? (tokens : List Token) : Option Json := do
  (← tokens.foldlM Reading.step (.value [])).document?

/-- The value that a text stands for. -/
def parse? (text : String) : Option Json := do
  ofTokens? (← Token.ofChars? text.toList)

/-- Whether a text is a document that can be held. -/
def isDocument (text : String) : Bool := ((parse? text).map isSound).getD false

end Tinct.Json
