import Tinct.Number.Double

/-! # TOML values

The values that a TOML document holds; a document as a whole is a table. -/

namespace Tinct

/-- A TOML value. -/
inductive Toml where
  | bool (b : Bool)
  | integer (n : Int)
  | float (x : Double)
  | text (t : String)
  /-- A date, a time of day, or both, in their usual form. -/
  | time (t : String)
  | list (items : List Toml)
  | table (entries : List (String × Toml))

end Tinct
