import Tinct.Theme.Palette

/-! # Themes

A theme has a name, may have a background color, and describes the styles of categories. -/

namespace Tinct

/-- A theme as it is declared. -/
structure Theme where
  name : String
  background : Option String
  styles : Descriptions
deriving DecidableEq

/-- The palette that a theme declares. -/
def Theme.palette (t : Theme) : Palette := .ofDescriptions t.background t.styles

end Tinct
