import Tinct.Json

/-! # Records in JSON

A record is a value with members of fixed names.  It is read from an object, in which each of these
names stands at most once and other names are passed over, or from an array of its members in
order. -/

namespace Tinct.Json

/-- The text of a string. -/
def text? : Json → Option String
  | string t => t.string?
  | _ => none

/-- The truth value of a value that is one. -/
def bool? : Json → Option Bool
  | bool b => some b
  | _ => none

/-- The text of a string, or no text for `null` and for a member that is missing. -/
def optionalText? : Option Json → Option (Option String)
  | none => some none
  | some null => some none
  | some v => v.text?.map some

/-- The value of a named member, which is `none` where the name is missing.  There is no result for
a name that stands twice. -/
def member? (members : List (String × Json)) (name : String) : Option (Option Json) :=
  match members.filter (·.1 = name) with
  | [] => some none
  | [(_, v)] => some (some v)
  | _ => none

/-- The members of an object with the names as texts. -/
def members? : Json → Option (List (String × Json))
  | object members => members.mapM fun (name, v) => name.string?.map (·, v)
  | _ => none

/-- The members of a record in the order of their names. -/
def record? (names : List String) (v : Json) : Option (List (Option Json)) :=
  match v with
  | array items => if items.length = names.length then some (items.map some) else none
  | v => do names.mapM (member? (← v.members?))

end Tinct.Json
