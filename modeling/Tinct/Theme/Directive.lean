import Tinct.Text.Blank

/-! # Style directives

A theme describes a style by a list of words, such as `bold #ff0000`.  Each word is a directive.
Only a color and `bold` have an effect on a style; of several colors the last one counts. -/

namespace Tinct

/-- What a word of a style description says. -/
inductive Directive where
  /-- A word that starts with a number sign. -/
  | color (word : String)
  | bold
  | noBold
  | italic
  | noItalic
  | underline
  | noUnderline
  /-- The color behind `bg:`. -/
  | background (color : String)
  /-- The color behind `border:`. -/
  | border (color : String)
  | inherit
  | noInherit
  /-- Any other word. -/
  | unknown (word : String)
deriving DecidableEq, Repr

namespace Directive

/-- The directive of a word that is none of the fixed words. -/
def ofOtherWord (word : String) : Directive :=
  match "bg:".toList.isPrefixOf? word.toList, "border:".toList.isPrefixOf? word.toList with
  | some rest, _ => .background (String.ofList rest)
  | none, some rest => .border (String.ofList rest)
  | none, none => .unknown word

/-- The directive that a word stands for. -/
def ofWord (word : String) : Directive :=
  if word.toList.head? = some '#' then .color word
  else
    match word with
    | "bold" => .bold
    | "nobold" => .noBold
    | "italic" => .italic
    | "noitalic" => .noItalic
    | "underline" => .underline
    | "nounderline" => .noUnderline
    | "inherit" => .inherit
    | "noinherit" => .noInherit
    | word => ofOtherWord word

/-- The directives of a style description in order. -/
def ofDescription (text : String) : List Directive := (words text).map ofWord

end Directive

/-- A color, which may be left open, and a weight. -/
structure Style where
  color : Option String := none
  bold : Bool := false
deriving DecidableEq, Repr

namespace Style

/-- The effect of a directive: a color replaces the color, and `bold` makes the style bold. -/
def apply (s : Style) : Directive → Style
  | .color word => { s with color := some word }
  | .bold => { s with bold := true }
  | _ => s

/-- The style that a list of directives describes. -/
def ofDirectives (ds : List Directive) : Style := ds.foldl apply {}

/-- The style that a text describes. -/
def ofDescription (text : String) : Style := ofDirectives (Directive.ofDescription text)

/-- A description of a style; a style that is not bold and has no color is described as not
bold. -/
def description (s : Style) : String :=
  match s.color, s.bold with
  | some color, true => color ++ " bold"
  | some color, false => color
  | none, true => "bold"
  | none, false => "nobold"

end Style

end Tinct
