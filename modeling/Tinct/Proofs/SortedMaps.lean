import Mathlib.Data.List.Nodup
import Tinct.SortedMap

/-!
# Look-ups in sorted maps

A look-up finds exactly the entries of a map.  The map of a list of entries has the last entry of
each key.

## Key results

- `find?_eq_some_iff`: a look-up finds exactly the entries of the map
- `find?_insert_eq_ite`: a look-up after an insertion, for keys that can be told apart
- `eq_of_find?_eq`: maps with the same look-ups are the same
- `find?_values_eq_some_iff`: the first value with a property is the one with the smallest key
- `find?_mapValues`: a look-up in a map with changed values
- `find?_ofList`: a look-up in the map of a list finds the last entry of its key
- `find?_ofList_eq_some_iff_append`: this entry splits the list, and its key does not come again
- `find?_ofList_eq_some_iff`: and if the list has one entry of the key, it finds that one
- `perm_entries_ofList`: the map of a list without repeated keys has the entries of the list
-/

namespace Tinct

/-- The last element with a property, with one more element behind. -/
theorem getLast?_filter_concat {α : Type} (p : α → Bool) (l : List α) (a : α) :
    ((l ++ [a]).filter p).getLast? = if p a = true then some a else (l.filter p).getLast? := by
  rw [List.filter_append]
  by_cases h : p a = true <;> simp [h]

namespace SortedMap

variable {κ α : Type} [Ord κ] [Std.LawfulEqOrd κ] {key : κ} {a : α} {entries : List (κ × α)}

/-! ## Entries -/

theorem mem_of_lookup (h : lookup key entries = some a) : (key, a) ∈ entries := by
  fun_induction lookup key entries with
  | case1 => cases h
  | case2 k b rest heq =>
    obtain rfl := Option.some.inj h
    obtain rfl := Std.LawfulEqCmp.eq_of_compare heq
    exact List.mem_cons_self
  | case3 k b rest hne ih => exact List.mem_cons_of_mem _ (ih h)

theorem exists_lookup_of_mem (h : (key, a) ∈ entries) : ∃ b, lookup key entries = some b := by
  fun_induction lookup key entries with
  | case1 => cases h
  | case2 k b rest heq => exact ⟨b, rfl⟩
  | case3 k b rest hne ih =>
    rcases List.mem_cons.mp h with hhead | hrest
    · obtain ⟨rfl, -⟩ := Prod.mk.inj hhead
      exact absurd Std.ReflCmp.compare_self hne
    · exact ih hrest

omit [Std.LawfulEqOrd κ] in
/-- What is looked up in two lists is found in the first one, or else in the second one. -/
theorem lookup_append (key : κ) (front back : List (κ × α)) :
    lookup key (front ++ back) = (lookup key front).or (lookup key back) := by
  induction front with
  | nil => rfl
  | cons e rest ih =>
    rw [List.cons_append, lookup, lookup, ih]
    split <;> rfl

/-- A look-up finds the entry in front of which its key does not stand. -/
theorem lookup_eq_some_iff_append : lookup key entries = some a ↔
    ∃ front back, entries = front ++ (key, a) :: back ∧ ∀ b, (key, b) ∉ front := by
  constructor
  · intro h
    fun_induction lookup key entries with
    | case1 => cases h
    -- the first entry of the key ends the search
    | case2 k b rest heq =>
      obtain rfl := Option.some.inj h
      obtain rfl := Std.LawfulEqCmp.eq_of_compare heq
      exact ⟨[], rest, rfl, fun _ => List.not_mem_nil⟩
    | case3 k b rest hne ih =>
      obtain ⟨front, back, rfl, hfront⟩ := ih h
      refine ⟨(k, b) :: front, back, rfl, fun c hc => ?_⟩
      rcases List.mem_cons.mp hc with hhead | hmem
      · obtain ⟨rfl, -⟩ := Prod.mk.inj hhead
        exact hne Std.ReflCmp.compare_self
      · exact hfront c hmem
  · intro h
    obtain ⟨front, back, rfl, hfront⟩ := h
    -- nothing of the key stands before the entry
    have hnone : lookup key front = none := by
      cases hfound : lookup key front with
      | none => rfl
      | some b => exact absurd (mem_of_lookup hfound) (hfront b)
    rw [lookup_append, hnone, Option.none_or, lookup, if_pos Std.ReflCmp.compare_self]

theorem mem_values_of_find? {m : SortedMap κ α} (h : m.find? key = some a) : a ∈ m.values :=
  List.mem_map.mpr ⟨(key, a), mem_of_lookup h, rfl⟩

private theorem not_lt_self (key : κ) : compare key key ≠ .lt := by
  intro hlt
  exact absurd (Std.ReflCmp.compare_self.symm.trans hlt) (by decide)

/-- In strictly ascending order every entry is the first of its key. -/
private theorem lookup_of_mem (hordered : entries.Pairwise fun a b => compare a.1 b.1 = .lt)
    (h : (key, a) ∈ entries) : lookup key entries = some a := by
  induction entries with
  | nil => cases h
  | cons e rest ih =>
    obtain ⟨hbelow, hrest⟩ := List.pairwise_cons.mp hordered
    rcases List.mem_cons.mp h with rfl | hmem
    · exact if_pos Std.ReflCmp.compare_self
    · -- an earlier entry of the key would be below itself
      have hne : compare key e.1 ≠ .eq := by
        intro heq
        have hlt := hbelow _ hmem
        rw [← Std.LawfulEqCmp.eq_of_compare heq] at hlt
        exact not_lt_self key hlt
      rw [lookup, if_neg hne]
      exact ih hrest hmem

/-- A look-up finds exactly the entries of the map. -/
theorem find?_eq_some_iff {m : SortedMap κ α} : m.find? key = some a ↔ (key, a) ∈ m.entries :=
  ⟨mem_of_lookup, lookup_of_mem m.ordered⟩

/-- The keys of a map are those with a value. -/
theorem mem_keys_iff {m : SortedMap κ α} : key ∈ m.keys ↔ ∃ a, m.find? key = some a := by
  simp [keys, find?_eq_some_iff]

omit [Std.LawfulEqOrd κ] in
/-- The keys of a map ascend in every order that agrees with the comparison. -/
theorem pairwise_keys {R : κ → κ → Prop} (h : ∀ {a b}, compare a b = .lt → R a b)
    (m : SortedMap κ α) : m.keys.Pairwise R :=
  List.pairwise_map.mpr (m.ordered.imp h)

/-- The keys of a map ascend, so no entry stands twice. -/
theorem nodup_entries (m : SortedMap κ α) : m.entries.Nodup := by
  refine m.ordered.imp fun {a b} hlt heq => ?_
  rw [heq] at hlt
  exact not_lt_self b.1 hlt

/-- Maps with the same look-ups are the same. -/
theorem eq_of_find?_eq [Std.TransOrd κ] {m n : SortedMap κ α}
    (h : ∀ key, m.find? key = n.find? key) : m = n := by
  have hmem : ∀ e, e ∈ m.entries ↔ e ∈ n.entries := by
    intro e
    rw [← find?_eq_some_iff, ← find?_eq_some_iff, h]
  have hperm : m.entries.Perm n.entries :=
    (List.perm_ext_iff_of_nodup (nodup_entries m) (nodup_entries n)).mpr hmem
  -- ascending lists with the same entries have them in the same order
  have hentries : m.entries = n.entries := by
    refine hperm.eq_of_pairwise (fun a b _ _ hab hba => ?_) m.ordered n.ordered
    exact absurd (Std.TransCmp.lt_trans hab hba) (not_lt_self a.1)
  cases m
  cases n
  simp_all

/-- The first value with a property is the one whose key comes before those of all others. -/
theorem find?_values_eq_some_iff [Std.TransOrd κ] {m : SortedMap κ α} {p : α → Bool} :
    m.values.find? p = some a ↔
      ∃ key, m.find? key = some a ∧ p a = true ∧
        ∀ k b, m.find? k = some b → p b = true → k = key ∨ compare key k = .lt := by
  have hfound : ∀ b, m.values.find? p = some b →
      ∃ key, m.find? key = some b ∧ p b = true ∧
        ∀ k c, m.find? k = some c → p c = true → k = key ∨ compare key k = .lt := by
    intro b hb
    rw [values, List.find?_map, Option.map_eq_some_iff] at hb
    obtain ⟨⟨key, _⟩, hentry, rfl⟩ := hb
    obtain ⟨hp, front, back, hsplit, hfront⟩ := List.find?_eq_some_iff_append.mp hentry
    have hordered := m.ordered
    rw [hsplit, List.pairwise_append, List.pairwise_cons] at hordered
    refine ⟨key, find?_eq_some_iff.mpr (by simp [hsplit]), hp, fun k c hc hpc => ?_⟩
    have hmem := find?_eq_some_iff.mp hc
    rw [hsplit, List.mem_append, List.mem_cons] at hmem
    -- before the first value there is none, and what comes later has a greater key
    rcases hmem with hfirst | hsame | hlater
    · have hnot := hfront _ hfirst
      simp [hpc] at hnot
    · exact .inl (Prod.mk.inj hsame).1
    · exact .inr (hordered.2.1.1 _ hlater)
  refine ⟨hfound a, ?_⟩
  intro h
  obtain ⟨key, ha, hp, hbefore⟩ := h
  -- the search does find something, and what it finds has the same key
  have hmem : a ∈ m.values := mem_values_of_find? ha
  obtain ⟨b, hb⟩ := Option.isSome_iff_exists.mp (List.find?_isSome.mpr ⟨a, hmem, hp⟩)
  obtain ⟨other, hother, hpb, hother_before⟩ := hfound b hb
  have hkey : other = key := by
    rcases hbefore other b hother hpb with hsame | hlt
    · exact hsame
    · rcases hother_before key a ha hp with hsame | hgt
      · exact hsame.symm
      · exact absurd (Std.TransCmp.lt_trans hlt hgt) (not_lt_self key)
  rw [hkey, ha] at hother
  rw [hb, hother]

/-! ## Changed values -/

omit [Std.LawfulEqOrd κ] in
/-- The map with its values changed. -/
def mapValues {β : Type} (f : α → β) (m : SortedMap κ α) : SortedMap κ β :=
  ⟨m.entries.map fun e => (e.1, f e.2), List.pairwise_map.mpr m.ordered⟩

omit [Std.LawfulEqOrd κ] in
/-- A value is found as what it is mapped to. -/
theorem find?_mapValues {β : Type} (f : α → β) (m : SortedMap κ α) (key : κ) :
    (m.mapValues f).find? key = (m.find? key).map f := by
  have hlookup : ∀ entries : List (κ × α),
      lookup key (entries.map fun e => (e.1, f e.2)) = (lookup key entries).map f := by
    intro entries
    induction entries with
    | nil => rfl
    | cons e rest ih =>
      rw [List.map_cons, lookup, lookup, ih]
      split <;> rfl
  exact hlookup m.entries

/-! ## Maps of lists -/

variable [Std.TransOrd κ]

/-- A look-up after an insertion finds the new value under its key and the old ones elsewhere. -/
theorem find?_insert_eq_ite [DecidableEq κ] (m : SortedMap κ α) (key : κ) (value : α) (k : κ) :
    (m.insert key value).find? k = if key = k then some value else m.find? k := by
  rw [find?_insert]
  by_cases h : key = k
  · rw [if_pos h, h, if_pos Std.ReflCmp.compare_self]
  · rw [if_neg h, if_neg fun heq => h (Std.LawfulEqCmp.eq_of_compare heq).symm]

/-- Inserting entries one after the other puts them, the last one first, before those of the
    map. -/
private theorem find?_foldl_insert (m : SortedMap κ α) (entries : List (κ × α)) (key : κ) :
    (entries.foldl (fun m e => m.insert e.1 e.2) m).find? key =
      (lookup key entries.reverse).or (m.find? key) := by
  induction entries generalizing m with
  | nil => rfl
  | cons e rest ih =>
    rw [List.foldl_cons, ih, find?_insert, List.reverse_cons, lookup_append, Option.or_assoc]
    -- the entry stands behind the later ones and in front of the map
    congr 1
    rw [lookup]
    split <;> rfl

/-- A look-up in the map of a list finds the last entry of its key. -/
theorem find?_ofList (entries : List (κ × α)) (key : κ) :
    (ofList entries).find? key = lookup key entries.reverse := by
  rw [ofList, find?_foldl_insert]
  exact Option.or_none

/-- The map of a list has the keys of the list. -/
theorem contains_ofList_iff : (ofList entries).contains key = true ↔ ∃ a, (key, a) ∈ entries := by
  rw [contains, find?_ofList, Option.isSome_iff_exists]
  constructor
  · intro h
    obtain ⟨a, ha⟩ := h
    exact ⟨a, List.mem_reverse.mp (mem_of_lookup ha)⟩
  · intro h
    obtain ⟨a, ha⟩ := h
    exact exists_lookup_of_mem (List.mem_reverse.mpr ha)

/-- A look-up in the map of a list finds the entry behind which its key does not stand. -/
theorem find?_ofList_eq_some_iff_append : (ofList entries).find? key = some a ↔
    ∃ front back, entries = front ++ (key, a) :: back ∧ ∀ b, (key, b) ∉ back := by
  rw [find?_ofList, lookup_eq_some_iff_append]
  constructor
  · intro h
    obtain ⟨front, back, hsplit, hfront⟩ := h
    refine ⟨back.reverse, front.reverse, ?_, fun b hb => hfront b (List.mem_reverse.mp hb)⟩
    rw [List.reverse_eq_iff.mp hsplit, List.reverse_append, List.reverse_cons, List.append_assoc,
      List.singleton_append]
  · intro h
    obtain ⟨front, back, rfl, hback⟩ := h
    refine ⟨back.reverse, front.reverse, ?_, fun b hb => hback b (List.mem_reverse.mp hb)⟩
    rw [List.reverse_append, List.reverse_cons, List.append_assoc, List.singleton_append]

/-- Where a list has at most one value for a key, its map has this value. -/
theorem find?_ofList_eq_some_iff (hunique : ∀ b, (key, a) ∈ entries → (key, b) ∈ entries → a = b) :
    (ofList entries).find? key = some a ↔ (key, a) ∈ entries := by
  rw [find?_ofList]
  constructor
  · intro h
    exact List.mem_reverse.mp (mem_of_lookup h)
  · intro h
    obtain ⟨b, hb⟩ := exists_lookup_of_mem (List.mem_reverse.mpr h)
    rw [hb, hunique b h (List.mem_reverse.mp (mem_of_lookup hb))]

/-- If no key stands twice in a list, its map has the entries of the list. -/
theorem perm_entries_ofList (h : (entries.map (·.1)).Nodup) :
    (ofList entries).entries.Perm entries := by
  refine (List.perm_ext_iff_of_nodup (nodup_entries _) (List.Nodup.of_map _ h)).mpr fun e => ?_
  rw [← find?_eq_some_iff]
  refine find?_ofList_eq_some_iff fun b he hb => ?_
  have hsame := List.inj_on_of_nodup_map h he hb rfl
  exact (Prod.mk.inj hsame).2

/-- The map of the entries of a map is that map. -/
theorem ofList_entries (m : SortedMap κ α) : ofList m.entries = m := by
  refine eq_of_find?_eq fun key => Option.ext fun a => ?_
  rw [find?_eq_some_iff (m := m)]
  refine find?_ofList_eq_some_iff fun b ha hb => ?_
  exact Option.some.inj ((find?_eq_some_iff.mpr ha).symm.trans (find?_eq_some_iff.mpr hb))

end SortedMap

end Tinct
