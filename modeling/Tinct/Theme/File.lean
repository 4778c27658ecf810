import Tinct.Theme
import Tinct.Yaml.Node

/-! # Theme files

A theme file is a YAML mapping with the name of the theme, its background color and its styles, all
of which may be missing; other keys are passed over.  Scalars are taken as they are written, so a
number can stand where a text is wanted. -/

namespace Tinct.Theme

open Yaml (Document Node)

/-- The text of a node that is a scalar. -/
def scalar? (d : Document) (n : Node Nat) : Option String :=
  match d.resolve n with
  | .scalar _ _ text => some text
  | _ => none

/-- The words that stand for no value. -/
def nullWords : List String := ["null", "Null", "NULL", "~"]

/-- The text of a scalar, or no text for a plain scalar that is empty or stands for no value.  A
scalar with the tag of such values has to stand for none. -/
def optionalScalar? (d : Document) (n : Node Nat) : Option (Option String) :=
  match d.resolve n with
  | .scalar ⟨_, none⟩ true text =>
    some (if text = "" || nullWords.contains text then none else some text)
  | .scalar ⟨_, some tag⟩ true text =>
    if tag ≠ "tag:yaml.org,2002:null" then some (some text)
    else if nullWords.contains text then some none
    else none
  | .scalar _ false text => some (some text)
  | _ => none

/-- The entries of a mapping; an empty plain scalar counts as a mapping without entries. -/
def entries? (d : Document) (n : Node Nat) : Option (List (Node Nat × Node Nat)) :=
  match d.resolve n with
  | .mapping _ entries => some entries
  | .scalar _ true "" => some []
  | _ => none

/-- The value of a key, which must not stand twice. -/
def onlyValue? (entries : List (String × Node Nat)) (key : String) : Option (Option (Node Nat)) :=
  match entries.filter (·.1 = key) with
  | [] => some none
  | [(_, n)] => some (some n)
  | _ => none

/-- The descriptions of styles by category, of which the last one counts. -/
def descriptions? (d : Document) (n : Node Nat) : Option Descriptions := do
  let entries ← (← entries? d n).mapM fun (key, value) => do
    return (Category.ofKey (← scalar? d key), ← scalar? d value)
  return .ofList entries

/-- The theme that a document declares. -/
def ofDocument? (d : Document) : Option Theme := do
  let entries ← (d.node?.map (entries? d)).getD (some [])
  let entries ← entries.mapM fun (key, value) => do return (← scalar? d key, value)
  let name ← onlyValue? entries "name"
  let background ← onlyValue? entries "background_color"
  let styles ← onlyValue? entries "styles"
  return {
    name := ← (name.map (scalar? d)).getD (some "")
    background := ← (background.map (optionalScalar? d)).getD (some none)
    styles := ← (styles.map (descriptions? d)).getD (some .empty) }

/-- The theme of a theme file; a theme without a name gets the one given. -/
def parse? (fallback text : String) : Option Theme := do
  let t ← ofDocument? (← Document.parse? text)
  return if t.name = "" then { t with name := fallback } else t

end Tinct.Theme
