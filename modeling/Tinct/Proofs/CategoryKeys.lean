import Tinct.Listing.Written
import Tinct.Proofs.KeyCollisions

/-!
# Keys as names of categories

No operation on categories makes an empty segment, also not the one that reads a category from JSON.
So the root is the only category with the empty key, and among the categories without dots in their
segments each one has a key of its own, under which a palette keeps its entry.

## Key results

- `isBuilt_of_ofJson?`: a category that is read from JSON comes out of the operations, too
- `isRoot_iff_key_eq_empty`: only the root has the empty key
- `IsBuilt.key_inj`: categories that are built without dots have different keys
- `key_identifies`: all of this, and which categories share an entry of a palette
-/

namespace Tinct.Category

variable {c d : Category}

/-! ## Categories that are built -/

/-- A category that is read from JSON is one that is read from a key. -/
theorem isBuilt_of_ofJson? {v : Json} (h : ofJson? v = some c) : c.IsBuilt := by
  obtain ⟨key, -, rfl⟩ := Option.map_eq_some_iff.mp h
  exact .ofKey key

/-- A key is empty only if there are no segments, or empty ones. -/
theorem key_eq_empty_iff (hne : ∀ s ∈ c.segments, s ≠ "") : c.key = "" ↔ c.segments = [] := by
  obtain ⟨segments⟩ := c
  cases segments with
  | nil => exact iff_of_true rfl rfl
  | cons head rest =>
    -- the key starts with the first segment, which is not empty
    have hhead : head.toList ≠ [] := mt String.toList_eq_nil_iff.mp (hne head List.mem_cons_self)
    refine iff_of_false (fun hkey => hhead ?_) (List.cons_ne_nil _ _)
    rw [← String.toList_eq_nil_iff, key, String.toList_ofList] at hkey
    -- with or without further segments, the first one is in front
    cases rest with
    | nil => simpa using hkey
    | cons second rest => simp at hkey

/-- Only the root has the empty key. -/
theorem IsBuilt.isRoot_iff_key_eq_empty (hc : c.IsBuilt) : c.isRoot = true ↔ c.key = "" := by
  rw [key_eq_empty_iff hc.segment_ne_empty, isRoot, List.isEmpty_iff]

/-- Categories that are built without dots have different keys. -/
theorem IsBuilt.key_inj (hc : c.IsBuilt) (hd : d.IsBuilt)
    (hcdots : ∀ s ∈ c.segments, '.' ∉ s.toList) (hddots : ∀ s ∈ d.segments, '.' ∉ s.toList) :
    c.key = d.key ↔ c = d :=
  Category.key_inj (hc.isPlain hcdots) (hd.isPlain hddots)

end Tinct.Category

namespace Tinct.Palette

variable {p : Palette} {c : Category} {e : Entry} {i : Nat}

/-! ## Entries -/

/-- The entry at a place of a palette is the one of a category. -/
def IsEntryOf (p : Palette) (i : Nat) (c : Category) : Prop :=
  ∃ e, p.entries.entries[i]? = some (c.key, e)

/-- The entry of a category stands at one of the places of the palette. -/
theorem find?_eq_some_iff_getElem? :
    p.find? c = some e ↔ ∃ i : Nat, p.entries.entries[i]? = some (c.key, e) := by
  rw [find?, SortedMap.find?_eq_some_iff, List.mem_iff_getElem?]

/-- A place of a palette has one key. -/
theorem IsEntryOf.key_eq {d : Category} (hc : p.IsEntryOf i c) (hd : p.IsEntryOf i d) :
    c.key = d.key := by
  obtain ⟨e, he⟩ := hc
  obtain ⟨f, hf⟩ := hd
  exact (Prod.mk.inj (Option.some.inj (he.symm.trans hf))).1

/-- The entries of a palette of descriptions know the keys they stand under. -/
theorem key_eq_of_find?_ofDescriptions {background : Option String} {styles : Descriptions}
    (h : (ofDescriptions background styles).find? c = some e) : e.category.key = c.key := by
  obtain ⟨d, text, hprevails, rfl⟩ := find?_entries_eq_some_iff.mp h
  exact hprevails.key_eq

end Tinct.Palette

namespace Tinct.Category

open Palette in
/-- The categories that come out of the operations, among them those that are read from JSON, have no
    empty segments, and only the root among them has the empty key.  Those of them without dots in
    their segments have different keys.  So if two of them get the entry at the same place of any
    palette, or equal entries of a palette of descriptions, they are the same. -/
theorem key_identifies :
    (∀ (v : Json) (c : Category), ofJson? v = some c → c.IsBuilt) ∧
    (∀ c : Category, c.IsBuilt →
      (∀ s ∈ c.segments, s ≠ "") ∧ (c.isRoot = true ↔ c.key = "")) ∧
    (∀ (p : Palette) (c : Category) (e : Entry),
      p.find? c = some e ↔ ∃ i : Nat, p.entries.entries[i]? = some (c.key, e)) ∧
    ∀ c d : Category, c.IsBuilt → d.IsBuilt →
      (∀ s ∈ c.segments, '.' ∉ s.toList) → (∀ s ∈ d.segments, '.' ∉ s.toList) →
      (c.key = d.key ↔ c = d) ∧
      (∀ (p : Palette) (i : Nat), p.IsEntryOf i c → p.IsEntryOf i d → c = d) ∧
      ∀ background styles e, (ofDescriptions background styles).find? c = some e →
        (ofDescriptions background styles).find? d = some e → c = d := by
  refine ⟨fun v c => isBuilt_of_ofJson?,
    fun c hc => ⟨hc.segment_ne_empty, hc.isRoot_iff_key_eq_empty⟩,
    fun p c e => find?_eq_some_iff_getElem?, fun c d hc hd hcdots hddots => ?_⟩
  -- among these categories the key tells the category
  have hkey := hc.key_inj hd hcdots hddots
  refine ⟨hkey, fun p i hci hdi => hkey.mp (hci.key_eq hdi), fun background styles e hce hde => ?_⟩
  -- the entry knows the key it stands under, so the two keys are the same
  refine hkey.mp ?_
  rw [← key_eq_of_find?_ofDescriptions hce, key_eq_of_find?_ofDescriptions hde]

open Palette in
/-- A category that is read from JSON and one that is built from the one above it find the same entry,
    at the same place, so they are the same. -/
theorem key_identifies_of_entry :
    let read := ofKey "Token.Name.Tag"
    let built := (ofKey "Name").child "Tag"
    let styles : Descriptions := .ofList [(ofKey "Name", "#111"), (read, "bold")]
    let p := ofDescriptions none styles
    ofJson? (.ofString "Token.Name.Tag") = some read ∧ read.IsBuilt ∧ built.IsBuilt ∧
      (∀ s ∈ read.segments, '.' ∉ s.toList) ∧ (∀ s ∈ built.segments, '.' ∉ s.toList) ∧
      (p.IsEntryOf 1 read ∧ p.IsEntryOf 1 built) ∧
      (p.find? read = some ⟨read, ⟨none, true⟩⟩ ∧ p.find? built = some ⟨read, ⟨none, true⟩⟩) ∧
      (built.isRoot = false ∧ built.key ≠ "") ∧ read = built ∧ built = read := by
  intro read built styles p
  obtain ⟨hjson, hroot, -, hsame⟩ := key_identifies
  -- both come out of the operations, and neither has a dot in a segment
  have hread : ofJson? (.ofString "Token.Name.Tag") = some read := by decide
  have hreadBuilt : read.IsBuilt := hjson _ read hread
  have hbuilt : built.IsBuilt := .child (.ofKey "Name") "Tag"
  have hreadDots : ∀ s ∈ read.segments, '.' ∉ s.toList := by decide
  have hbuiltDots : ∀ s ∈ built.segments, '.' ∉ s.toList := by decide
  obtain ⟨-, hplace, hentry⟩ := hsame read built hreadBuilt hbuilt hreadDots hbuiltDots
  -- both have the entry at the second place
  have hreadPlace : p.IsEntryOf 1 read := ⟨⟨read, ⟨none, true⟩⟩, by decide⟩
  have hbuiltPlace : p.IsEntryOf 1 built := ⟨⟨read, ⟨none, true⟩⟩, by decide⟩
  have hreadEntry : p.find? read = some ⟨read, ⟨none, true⟩⟩ := by decide
  have hbuiltEntry : p.find? built = some ⟨read, ⟨none, true⟩⟩ := by decide
  -- the second category is not the root, so its key is not empty
  have hnotRoot : built.isRoot = false := by decide
  have hkey : built.key ≠ "" := by
    intro h
    rw [(hroot built hbuilt).2.mpr h] at hnotRoot
    cases hnotRoot
  exact ⟨hread, hreadBuilt, hbuilt, hreadDots, hbuiltDots, ⟨hreadPlace, hbuiltPlace⟩,
    ⟨hreadEntry, hbuiltEntry⟩, ⟨hnotRoot, hkey⟩, hplace p 1 hreadPlace hbuiltPlace,
    (hentry none styles _ hreadEntry hbuiltEntry).symm⟩

end Tinct.Category
