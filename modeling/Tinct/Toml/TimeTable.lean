import Tinct.Toml.Numeral

/-! # Times in the form of tables

A table whose first entry has the name `timeName` stands for a time, and its other entries count for
nothing.  That entry has to be a text that spells the time out.  It is read more freely than a time
among the values of a document: the hour may be 24, a blank may stand in front of the time of day,
and an offset is any one of at most a day.

* `spelledTime?` reads the text of such an entry;
* `withTimes?` puts times in the place of such tables. -/

namespace Tinct.Toml

/-- The name of the entry that makes a table a time. -/
def timeName : String := "$__toml_private_datetime"

/-- A number below 100 with two digits. -/
def twoDigits (n : Nat) : List Char := [Nat.digitChar (n / 10), Nat.digitChar (n % 10)]

/-- The distance from universal time at the end of a text, in hours and minutes that are below 60;
no distance counts as positive. -/
def spelledOffset? : List Char → Option (List Char)
  | [] => some []
  | ['Z'] => some ['Z']
  | ['z'] => some ['Z']
  | c :: source => do
    if c ≠ '+' && c ≠ '-' then none
    let (hours, rest) ← field? 2 0 99 source
    let (minutes, rest) ← field? 2 0 99 (← expect? ':' rest)
    let total := decimalValue hours * 60 + decimalValue minutes
    if !rest.isEmpty || 24 * 60 < total then none
    let c := if total = 0 then '+' else c
    return c :: twoDigits (total / 60) ++ ':' :: twoDigits (total % 60)

/-- The time of day in a text whose hour may be 24, and the text behind it. -/
def spelledClock? (text : List Char) : Option (List Char × List Char) := clock? 24 text

/-- The date, the time of day, or both, that a text spells out.  Only behind a date may a time of
day have an offset. -/
def spelledTime? (text : List Char) : Option (List Char) := do
  if (text.drop 2).head? = some ':' then
    let (clock, rest) ← spelledClock? text
    if rest.isEmpty then return clock else none
  else
    let (date, rest) ← date? text
    match rest with
    | [] => return date
    | c :: rest =>
      if c ≠ 'T' && c ≠ 't' && c ≠ ' ' then none
      let (clock, rest) ← spelledClock? rest
      return date ++ 'T' :: clock ++ (← spelledOffset? rest)

/-- The entry that makes a table a time. -/
def timeEntry? : List (String × Toml) → Option Toml
  | [] => none
  | (name, v) :: _ => if name = timeName then some v else none

/-- The time that the entry of a table spells out. -/
def timeOfEntry? : Toml → Option Toml
  | .text t => (spelledTime? t.toList).map fun time => .time (String.ofList time)
  | _ => none

mutual

/-- A value with times in the place of the tables that stand for them, if all of them can be
read. -/
def withTimes? : Toml → Option Toml
  | .list items => (itemsWithTimes? items).map .list
  | .table entries =>
    match timeEntry? entries with
    | some v => timeOfEntry? v
    | none => (entriesWithTimes? entries).map .table
  | v => some v

/-- The items of a list with times in the place of tables. -/
def itemsWithTimes? : List Toml → Option (List Toml)
  | [] => some []
  | item :: rest => do return (← withTimes? item) :: (← itemsWithTimes? rest)

/-- The entries of a table with times in the place of tables. -/
def entriesWithTimes? : List (String × Toml) → Option (List (String × Toml))
  | [] => some []
  | (name, v) :: rest => do return (name, ← withTimes? v) :: (← entriesWithTimes? rest)

end

end Tinct.Toml
