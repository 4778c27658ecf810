import Tinct.Json.Printer
import Tinct.Json.Reader
import Tinct.Json.Record
import Tinct.Listing

/-! # Token files

A listing is written as a JSON array of lines, each an array of tokens, and a token as an object
with its content and the key of its category. -/

namespace Tinct

/-- A category is written as its key. -/
def Category.toJson (c : Category) : Json := .ofString c.key

/-- The category whose key a JSON value holds. -/
def Category.ofJson? (v : Json) : Option Category := v.text?.map Category.ofKey

/-- A token is written as an object. -/
def Token.toJson (t : Token) : Json :=
  .ofMembers [("content", .ofString t.content), ("type", t.category.toJson)]

/-- The token that a JSON value holds. -/
def Token.ofJson? (v : Json) : Option Token :=
  match v.record? ["content", "type"] with
  | some [some content, some category] => do
    return ⟨← content.text?, ← Category.ofJson? category⟩
  | _ => none

namespace Json

/-- The items of an array. -/
def items? : Json → Option (List Json)
  | array items => some items
  | _ => none

end Json

namespace Listing

/-- A listing is written as an array of arrays of tokens. -/
def toJson (l : Listing) : Json :=
  .array (l.lines.map fun line => .array (line.map Token.toJson))

/-- The listing that a JSON value holds. -/
def ofJson? (v : Json) : Option Listing := do
  return ⟨← (← v.items?).mapM fun line => do (← line.items?).mapM Token.ofJson?⟩

/-- The listing of a token file. -/
def read? (text : String) : Option Listing := do ofJson? (← Json.parse? text)

end Listing

end Tinct
