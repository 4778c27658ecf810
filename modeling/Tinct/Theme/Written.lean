import Tinct.Json.Printer
import Tinct.Json.Reader
import Tinct.Json.Record
import Tinct.Theme

/-! # Themes and palettes in JSON

A palette is written as an object with its background color and its styles by key.  The category of
an entry is not written, so a palette that is read back has the root in all its entries. -/

namespace Tinct

/-- A style is written as an object. -/
def Style.toJson (s : Style) : Json :=
  .ofMembers [("color", .ofString? s.color), ("bold", .bool s.bold)]

/-- The style that a JSON value holds. -/
def Style.ofJson? (v : Json) : Option Style :=
  match v.record? ["color", "bold"] with
  | some [color, some bold] => do return ⟨← Json.optionalText? color, ← bold.bool?⟩
  | _ => none

namespace Palette

/-- A palette is written as an object. -/
def toJson (p : Palette) : Json :=
  .ofMembers [("backgroundColor", .ofString? p.background),
    ("styles", .ofMembers (p.entries.entries.map fun (key, e) => (key, e.style.toJson)))]

/-- The palette that a JSON value holds. -/
def ofJson? (v : Json) : Option Palette :=
  match v.record? ["backgroundColor", "styles"] with
  | some [background, some styles] => do
    let entries ← (← styles.members?).mapM fun (key, s) =>
      (Style.ofJson? s).map fun style => (key, Entry.mk .root style)
    return ⟨← Json.optionalText? background, .ofList entries⟩
  | _ => none

/-- The palette that a JSON text holds. -/
def read? (text : String) : Option Palette := do ofJson? (← Json.parse? text)

end Palette

/-- A theme is written as an object, with its descriptions by key. -/
def Theme.toJson (t : Theme) : Json :=
  .ofMembers [("name", .ofString t.name), ("background_color", .ofString? t.background),
    ("styles", .ofMembers (t.styles.entries.map fun (c, text) => (c.key, .ofString text)))]

end Tinct
