import Tinct.Category
import Tinct.SortedMap
import Tinct.Theme.Directive

/-! # Palettes

A palette gives styles to categories, by the keys of the categories.  A category without an entry of
its own takes its style from the categories above it: the color from the closest one that has a
color, the weight from the closest one that has an entry.

* `ofDescriptions` makes a palette from style descriptions;
* `resolve` is the style of a category;
* `descriptions` describes the entries of a palette. -/

namespace Tinct

/-- Style descriptions by category. -/
abbrev Descriptions := SortedMap Category String

/-- A style for a category. -/
structure Palette.Entry where
  category : Category
  style : Style
deriving DecidableEq, Repr

/-- The entry that a description makes; an empty description makes none. -/
def Palette.Entry.ofDescription? (category : Category) (text : String) : Option Palette.Entry :=
  if text = "" then none else some ⟨category, .ofDescription text⟩

/-- A background color and styles by the keys of their categories. -/
structure Palette where
  background : Option String
  entries : SortedMap String Palette.Entry
deriving DecidableEq

namespace Palette

/-- The palette of a list of descriptions.  Of several categories with the same key the last one
with a description that is not empty counts. -/
def ofDescriptions (background : Option String) (styles : Descriptions) : Palette :=
  ⟨background, .ofList <| styles.entries.filterMap fun (category, text) =>
    (Entry.ofDescription? category text).map fun e => (e.category.key, e)⟩

/-- The entry of exactly this category. -/
def find? (p : Palette) (c : Category) : Option Entry := p.entries.find? c.key

/-- The color that the entry of exactly this category has. -/
def color? (p : Palette) (c : Category) : Option String := (p.find? c).bind (·.style.color)

/-- Whether the entry of exactly this category is bold. -/
def bold? (p : Palette) (c : Category) : Option Bool := (p.find? c).map (·.style.bold)

/-- Looks for what is missing of a style in the entries of categories, up to the first place where
nothing is missing. -/
def resolveFrom (p : Palette) (color : Option String) (bold : Option Bool) : List Category → Style
  | [] => ⟨color, bold.getD false⟩
  | c :: rest =>
    let color := color.or (p.color? c)
    let bold := bold.or (p.bold? c)
    if color.isSome && bold.isSome then ⟨color, bold.getD false⟩
    else p.resolveFrom color bold rest

/-- The style of a category, with what it takes from the categories above. -/
def resolve (p : Palette) (c : Category) : Style := p.resolveFrom none none c.ancestors

/-- Descriptions of the entries, by the categories that their keys name. -/
def descriptions (p : Palette) : Descriptions :=
  .ofList (p.entries.entries.map fun (key, e) => (.ofKey key, e.style.description))

end Palette

end Tinct
