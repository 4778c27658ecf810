/-! # Named values

Values with names, in the order in which the names came up.

* `lookup_putEntry` says what a look-up finds after a value was stored. -/

namespace Tinct

variable {α : Type}

/-- Stores a value under a name, in place of the value stored there before. -/
def putEntry (name : String) (value : α) : List (String × α) → List (String × α)
  | [] => [(name, value)]
  | e :: rest => if e.1 = name then (name, value) :: rest else e :: putEntry name value rest

theorem lookup_entry_cons (e : String × α) (rest : List (String × α)) (name : String) :
    (e :: rest).lookup name = if name = e.1 then some e.2 else rest.lookup name := by
  rw [List.lookup_cons]
  by_cases h : name = e.1
  · simp [h]
  · simp [h, beq_eq_false_iff_ne.2 h]

/-- A look-up after a value was stored finds it under its name and the old ones elsewhere. -/
theorem lookup_putEntry (name : String) (value : α) (entries : List (String × α)) (other : String) :
    (putEntry name value entries).lookup other =
      if other = name then some value else entries.lookup other := by
  induction entries with
  | nil => rw [putEntry, lookup_entry_cons]
  | cons e rest ih =>
    simp only [putEntry]
    split
    · rename_i same
      simp only [lookup_entry_cons, same]
      split <;> rfl
    · rename_i differs
      simp only [lookup_entry_cons, ih]
      split
      · rename_i eq
        rw [if_neg (eq ▸ differs)]
      · rfl

end Tinct
