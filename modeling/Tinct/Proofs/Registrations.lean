import Mathlib.Data.List.Induction
import Mathlib.Data.List.Nodup
import Tinct.Lexers
import Tinct.Proofs.SortedMaps
import Tinct.Proofs.TextOrder

/-!
# Collections of lexers after a run of registrations

A collection that was built up by registrations knows of each name its last registration, and
nothing else of the run.  Its lexers stand in the order of their names, so a search through them
finds the first one with a property, whatever the order of the registrations was.

## Key results

- `find?_byName_registered`: what is stored under a name is its last registration
- `registered_eq_of_lastRegistered`: the last registrations determine the collection
- `find?_values_registered`: a search finds the first lexer with a property
- `entries_of_tabulates`: sorting the last registrations, in whatever order they are listed, gives
  the entries of the collection
-/

namespace Tinct.Lexers

variable {history : List Lexer} {lexer : Lexer} {name : String}

/-! ## What is stored -/

/-- The collection after a run of registrations. -/
def registered (history : List Lexer) : Lexers := history.foldl register empty

/-- The last registration of a name. -/
def lastRegistered (history : List Lexer) (name : String) : Option Lexer :=
  (history.filter (·.name = name)).getLast?

/-- The lexer is the last registration of its name. -/
def IsCurrent (history : List Lexer) (lexer : Lexer) : Prop :=
  lastRegistered history lexer.name = some lexer

/-- The lexer that is registered last replaces the one of its name. -/
theorem lastRegistered_concat (history : List Lexer) (lexer : Lexer) (name : String) :
    lastRegistered (history ++ [lexer]) name =
      if lexer.name = name then some lexer else lastRegistered history name := by
  simp only [lastRegistered, getLast?_filter_concat, decide_eq_true_iff]

/-- The last lexer under a name was registered, and has this name. -/
theorem mem_of_lastRegistered (h : lastRegistered history name = some lexer) :
    lexer ∈ history ∧ lexer.name = name := by
  have hmem := List.mem_filter.mp (List.mem_of_getLast? h)
  exact ⟨hmem.1, by simpa using hmem.2⟩

theorem isCurrent_of_lastRegistered (h : lastRegistered history name = some lexer) :
    IsCurrent history lexer := by
  rw [IsCurrent, (mem_of_lastRegistered h).2]
  exact h

/-- A registration stores the lexer under its name and leaves all other names alone. -/
theorem find?_byName_register (ls : Lexers) (lexer : Lexer) (name : String) :
    (ls.register lexer).byName.find? name =
      if lexer.name = name then some lexer else ls.byName.find? name :=
  SortedMap.find?_insert_eq_ite _ _ _ _

/-- What is stored under a name after a run is its last registration. -/
theorem find?_byName_registered (history : List Lexer) (name : String) :
    (registered history).byName.find? name = lastRegistered history name := by
  -- the last registration is at the end of the run, so the run is taken apart there
  induction history using List.reverseRecOn with
  | nil => rfl
  | append_singleton history lexer ih =>
    have hrun : registered (history ++ [lexer]) = (registered history).register lexer := by
      rw [registered, List.foldl_append]
      rfl
    rw [hrun, find?_byName_register, ih, lastRegistered_concat]

/-- Runs with the same last registrations lead to the same collection. -/
theorem registered_eq_of_lastRegistered {other : List Lexer}
    (h : ∀ name, lastRegistered other name = lastRegistered history name) :
    registered other = registered history := by
  have hmap : (registered other).byName = (registered history).byName := by
    refine SortedMap.eq_of_find?_eq fun name => ?_
    rw [find?_byName_registered, find?_byName_registered, h]
  exact congrArg Lexers.mk hmap

/-- A collection holds the last lexers under their names. -/
theorem mem_entries_registered :
    (name, lexer) ∈ (registered history).byName.entries ↔
      lastRegistered history name = some lexer := by
  rw [← SortedMap.find?_eq_some_iff, find?_byName_registered]

/-- The lexers of a collection are the current ones. -/
theorem mem_values_registered :
    lexer ∈ (registered history).byName.values ↔ IsCurrent history lexer := by
  constructor
  · intro h
    obtain ⟨⟨name, _⟩, hentry, rfl⟩ := List.mem_map.mp h
    exact isCurrent_of_lastRegistered (mem_entries_registered.mp hentry)
  · intro h
    exact List.mem_map.mpr ⟨(lexer.name, lexer), mem_entries_registered.mpr h, rfl⟩

/-- The names of the collection are the registered names. -/
theorem mem_names_registered :
    name ∈ (registered history).names ↔ ∃ lexer, lastRegistered history name = some lexer := by
  constructor
  · intro h
    obtain ⟨⟨_, lexer⟩, hentry, rfl⟩ := List.mem_map.mp h
    exact ⟨lexer, mem_entries_registered.mp hentry⟩
  · intro h
    obtain ⟨lexer, hlexer⟩ := h
    exact List.mem_map.mpr ⟨(name, lexer), mem_entries_registered.mpr hlexer, rfl⟩

/-- There is a last lexer under every name that was registered. -/
theorem exists_lastRegistered_iff :
    (∃ lexer, lastRegistered history name = some lexer) ↔ ∃ lexer ∈ history, lexer.name = name := by
  constructor
  · intro h
    obtain ⟨lexer, hlexer⟩ := h
    exact ⟨lexer, mem_of_lastRegistered hlexer⟩
  · intro h
    obtain ⟨lexer, hmem, hname⟩ := h
    have hne : history.filter (·.name = name) ≠ [] :=
      List.ne_nil_of_mem (List.mem_filter.mpr ⟨hmem, by simpa using hname⟩)
    exact ⟨_, List.getLast?_eq_some_getLast hne⟩

/-- Names are listed in the order of their bytes. -/
theorem pairwise_names (ls : Lexers) :
    ls.names.Pairwise fun a b => utf8Bytes a < utf8Bytes b :=
  ls.byName.pairwise_keys compare_eq_lt_iff_utf8Bytes_lt.mp

/-! ## The first lexer with a property -/

/-- Of the lexers with a property the one whose name comes first, byte by byte. -/
structure IsFirst (history : List Lexer) (P : Lexer → Prop) (lexer : Lexer) : Prop where
  isCurrent : IsCurrent history lexer
  holds : P lexer
  before : ∀ other, IsCurrent history other → P other →
    other = lexer ∨ utf8Bytes lexer.name < utf8Bytes other.name

/-- A search through the lexers of the collection finds the first one with the property. -/
theorem find?_values_registered {p : Lexer → Bool} :
    (registered history).byName.values.find? p = some lexer ↔
      IsFirst history (p · = true) lexer := by
  rw [SortedMap.find?_values_eq_some_iff]
  simp only [find?_byName_registered]
  constructor
  · intro h
    obtain ⟨name, hlexer, hp, hbefore⟩ := h
    obtain ⟨-, rfl⟩ := mem_of_lastRegistered hlexer
    refine ⟨hlexer, hp, fun other hother hpo => ?_⟩
    -- a lexer of the same name is the same one, and any other comes later by its name
    rcases hbefore other.name other hother hpo with hname | hlt
    · rw [IsCurrent, hname, hlexer] at hother
      exact .inl (Option.some.inj hother).symm
    · exact .inr (compare_eq_lt_iff_utf8Bytes_lt.mp hlt)
  · intro h
    refine ⟨lexer.name, h.isCurrent, h.holds, fun name other hother hpo => ?_⟩
    obtain ⟨-, rfl⟩ := mem_of_lastRegistered hother
    rcases h.before other hother hpo with rfl | hlt
    · exact .inl rfl
    · exact .inr (compare_eq_lt_iff_utf8Bytes_lt.mpr hlt)

theorem isFirst_congr {P Q : Lexer → Prop} (h : ∀ lexer, P lexer ↔ Q lexer) :
    IsFirst history P lexer ↔ IsFirst history Q lexer := by
  have hPQ : P = Q := funext fun l => propext (h l)
  rw [hPQ]

/-- There is a first lexer with a property as soon as there is one. -/
theorem exists_isFirst_iff {P : Lexer → Prop} :
    (∃ lexer, IsFirst history P lexer) ↔ ∃ lexer, IsCurrent history lexer ∧ P lexer := by
  classical
  constructor
  · intro h
    obtain ⟨lexer, hfirst⟩ := h
    exact ⟨lexer, hfirst.isCurrent, hfirst.holds⟩
  · intro h
    obtain ⟨lexer, hcurrent, hP⟩ := h
    have hsome : ((registered history).byName.values.find? (P ·)).isSome :=
      List.find?_isSome.mpr ⟨lexer, mem_values_registered.mpr hcurrent, decide_eq_true hP⟩
    obtain ⟨first, hfirst⟩ := Option.isSome_iff_exists.mp hsome
    exact ⟨first, (isFirst_congr fun _ => decide_eq_true_iff).mp
      (find?_values_registered.mp hfirst)⟩

/-! ## Tables in any order -/

/-- A table lists the last registration of each name that is registered, in whatever order. -/
structure Tabulates (table : List (String × Lexer)) (history : List Lexer) : Prop where
  nodup : (table.map (·.1)).Nodup
  mem_iff : ∀ name lexer, (name, lexer) ∈ table ↔ lastRegistered history name = some lexer

/-- Entries in the order of their names. -/
def nameLe (a b : String × Lexer) : Bool := decide (a.1 ≤ b.1)

/-- Sorting a table by its names gives the entries of the collection, whatever its order was. -/
theorem entries_of_tabulates {table : List (String × Lexer)} (h : Tabulates table history) :
    table.mergeSort nameLe = (registered history).byName.entries := by
  -- both lists are sorted by name
  have hsorted : (table.mergeSort nameLe).Pairwise fun a b => a.1 ≤ b.1 := by
    have htrans : ∀ a b c, nameLe a b = true → nameLe b c = true → nameLe a c = true := by
      intro a b c hab hbc
      exact decide_eq_true (le_trans (of_decide_eq_true hab) (of_decide_eq_true hbc))
    have htotal : ∀ a b, (nameLe a b || nameLe b a) = true := by
      intro a b
      simpa [nameLe] using le_total a.1 b.1
    exact (List.pairwise_mergeSort htrans htotal table).imp of_decide_eq_true
  have hordered : (registered history).byName.entries.Pairwise fun a b => a.1 ≤ b.1 :=
    (registered history).byName.ordered.imp fun hlt => le_of_lt (compare_lt_iff_lt.mp hlt)
  -- sorting changes the order only, and both lists have each entry once
  have hperm : (table.mergeSort nameLe).Perm (registered history).byName.entries := by
    refine (List.mergeSort_perm _ _).trans ?_
    refine (List.perm_ext_iff_of_nodup (List.Nodup.of_map _ h.nodup)
      (SortedMap.nodup_entries _)).mpr fun entry => ?_
    rw [h.mem_iff, mem_entries_registered]
  refine hperm.eq_of_pairwise (fun a b ha hb hab hba => ?_) hsorted hordered
  -- two entries of one name both hold its last registration
  have hname : a.1 = b.1 := le_antisymm hab hba
  have ha_last := (h.mem_iff a.1 a.2).mp (List.mem_mergeSort.mp ha)
  have hb_last := mem_entries_registered.mp hb
  rw [hname, hb_last] at ha_last
  exact Prod.ext hname (Option.some.inj ha_last).symm

end Tinct.Lexers
