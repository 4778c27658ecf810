/-! # Sorted maps

A finite map kept as the list of its entries in strictly ascending order of the keys.  There is one
such list for each map, so two maps with the same look-ups are equal, and listing the entries needs
no sorting.

* `find?_insert` says what a look-up finds after an insertion. -/

namespace Tinct

/-- A finite map as its list of entries in strictly ascending order of keys. -/
structure SortedMap (κ α : Type) [Ord κ] where
  entries : List (κ × α)
  ordered : entries.Pairwise fun a b => compare a.1 b.1 = .lt
deriving DecidableEq

namespace SortedMap

variable {κ α : Type} [Ord κ]

/-- The map without entries. -/
def empty : SortedMap κ α := ⟨[], .nil⟩

/-- The keys in ascending order. -/
def keys (m : SortedMap κ α) : List κ := m.entries.map (·.1)

/-- The values in ascending order of their keys. -/
def values (m : SortedMap κ α) : List α := m.entries.map (·.2)

/-- The value that a list of entries holds for a key. -/
def lookup (key : κ) : List (κ × α) → Option α
  | [] => none
  | (k, a) :: rest => if compare key k = .eq then some a else lookup key rest

/-- The value stored under a key. -/
def find? (m : SortedMap κ α) (key : κ) : Option α := lookup key m.entries

/-- Whether a key has a value. -/
def contains (m : SortedMap κ α) (key : κ) : Bool := (m.find? key).isSome

/-- Puts an entry into an ascending list, in place of an entry with the same key. -/
def insertEntry (key : κ) (value : α) : List (κ × α) → List (κ × α)
  | [] => [(key, value)]
  | (k, a) :: rest =>
    match compare key k with
    | .lt => (key, value) :: (k, a) :: rest
    | .eq => (key, value) :: rest
    | .gt => (k, a) :: insertEntry key value rest

theorem mem_insertEntry {key : κ} {value : α} {entries : List (κ × α)} {e : κ × α}
    (h : e ∈ insertEntry key value entries) : e = (key, value) ∨ e ∈ entries := by
  induction entries with
  | nil => simpa [insertEntry] using h
  | cons head rest ih =>
    simp only [insertEntry] at h
    split at h <;> simp only [List.mem_cons] at h ⊢
    · exact h
    · exact h.imp_right .inr
    · rcases h with h | h
      · exact .inr (.inl h)
      · exact (ih h).imp_right .inr

variable [Std.TransOrd κ] [Std.LawfulEqOrd κ]

theorem pairwise_insertEntry (key : κ) (value : α) {entries : List (κ × α)}
    (h : entries.Pairwise fun a b => compare a.1 b.1 = .lt) :
    (insertEntry key value entries).Pairwise fun a b => compare a.1 b.1 = .lt := by
  induction entries with
  | nil => simp [insertEntry]
  | cons head rest ih =>
    obtain ⟨below, rest_ordered⟩ := List.pairwise_cons.1 h
    simp only [insertEntry]
    split
    · rename_i lt
      refine List.pairwise_cons.2 ⟨fun e he => ?_, h⟩
      rcases List.mem_cons.1 he with rfl | he
      · exact lt
      · exact Std.TransCmp.lt_trans lt (below e he)
    · rename_i eq
      refine List.pairwise_cons.2 ⟨fun e he => ?_, rest_ordered⟩
      have := below e he
      rwa [← Std.LawfulEqCmp.eq_of_compare eq] at this
    · rename_i gt
      refine List.pairwise_cons.2 ⟨fun e he => ?_, ih rest_ordered⟩
      rcases mem_insertEntry he with rfl | he
      · exact Std.OrientedCmp.gt_iff_lt.1 gt
      · exact below e he

/-- Stores a value under a key, in place of the value stored there before. -/
def insert (m : SortedMap κ α) (key : κ) (value : α) : SortedMap κ α :=
  ⟨insertEntry key value m.entries, pairwise_insertEntry key value m.ordered⟩

/-- The map of a list of entries, in which the last entry of each key counts. -/
def ofList (entries : List (κ × α)) : SortedMap κ α :=
  entries.foldl (fun m e => m.insert e.1 e.2) empty

theorem lookup_insertEntry (key : κ) (value : α) (entries : List (κ × α)) (k : κ) :
    lookup k (insertEntry key value entries) =
      if compare k key = .eq then some value else lookup k entries := by
  induction entries with
  | nil => rfl
  | cons head rest ih =>
    simp only [insertEntry]
    split
    · rfl
    · rename_i eq
      have same := Std.LawfulEqCmp.eq_of_compare eq
      simp only [lookup, same]
      split <;> rfl
    · rename_i gt
      simp only [lookup, ih]
      split
      · rename_i eq
        obtain rfl := Std.LawfulEqCmp.eq_of_compare eq
        rw [if_neg]
        intro eq'
        rw [Std.OrientedCmp.eq_comm.1 eq'] at gt
        cases gt
      · rfl

/-- A look-up after an insertion finds the new value under its key and the old ones elsewhere. -/
theorem find?_insert (m : SortedMap κ α) (key : κ) (value : α) (k : κ) :
    (m.insert key value).find? k = if compare k key = .eq then some value else m.find? k :=
  lookup_insertEntry key value m.entries k

end SortedMap

end Tinct
