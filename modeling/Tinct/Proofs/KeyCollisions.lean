import Tinct.Proofs.StyleInheritance

/-!
# Categories with the same key

A key does not tell where its dots come from, so categories whose segments contain dots may share
their key with others.  The descriptions are read in the order of the categories, and each one that
is not empty takes the place of the one before it: of the categories with a key, the greatest one
that is described prevails.

## Key results

- `find?_entries_eq_some_iff`: the entry of a key is that of the category that prevails
- `Prevails.insert_empty`: an empty description of another category does not change which one does
- `length_entries_ofDescriptions`: where no segment contains a dot, every description has its entry
- `entries_ofDescriptions`: all of this for any descriptions
-/

namespace Tinct.Palette

variable {background : Option String} {styles : Descriptions} {key text : String} {c d : Category}

/-- Of the categories with a key whose descriptions are not empty, this one is the greatest. -/
structure Prevails (styles : Descriptions) (key : String) (c : Category) (text : String) :
    Prop where
  find?_eq : styles.find? c = some text
  ne_empty : text ≠ ""
  key_eq : c.key = key
  eq_or_lt : ∀ d, IsDescribed styles d → d.key = key → d = c ∨ compare d c = .lt

theorem Prevails.isDescribed (h : Prevails styles key c text) : IsDescribed styles c :=
  ⟨text, h.find?_eq, h.ne_empty⟩

/-- No two categories prevail, since each would come before the other. -/
theorem Prevails.unique {other : String} (hc : Prevails styles key c text)
    (hd : Prevails styles key d other) : c = d ∧ text = other := by
  have hsame : c = d := by
    rcases hd.eq_or_lt c hc.isDescribed hc.key_eq with heq | hlt
    · exact heq
    · rcases hc.eq_or_lt d hd.isDescribed hd.key_eq with heq | hgt
      · exact heq.symm
      · exact absurd hgt (Std.OrientedCmp.not_lt_of_lt hlt)
  subst hsame
  exact ⟨rfl, Option.some.inj (hc.find?_eq.symm.trans hd.find?_eq)⟩

/-! ## The entry of a key -/

/-- A palette has the keys of the categories that are described. -/
theorem contains_entries_iff : (ofDescriptions background styles).entries.contains key = true ↔
    ∃ c, IsDescribed styles c ∧ c.key = key := by
  rw [ofDescriptions, SortedMap.contains_ofList_iff]
  simp only [List.mem_filterMap, Prod.exists, Entry.keyed_eq_some_iff,
    ← SortedMap.find?_eq_some_iff]
  constructor
  · intro h
    obtain ⟨e, c, text, htext, hne, hkey, -⟩ := h
    exact ⟨c, ⟨text, htext, hne⟩, hkey⟩
  · intro h
    obtain ⟨c, ⟨text, htext, hne⟩, hkey⟩ := h
    exact ⟨_, c, text, htext, hne, hkey, rfl⟩

/-- The last entry that is made for a key belongs to the category that prevails. -/
private theorem exists_prevails {e : Entry}
    (h : (ofDescriptions background styles).entries.find? key = some e) :
    ∃ c text, Prevails styles key c text ∧ e = ⟨c, .ofDescription text⟩ := by
  rw [ofDescriptions, SortedMap.find?_ofList_eq_some_iff_append] at h
  obtain ⟨front, back, hsplit, hback⟩ := h
  -- the descriptions split where this entry is made
  obtain ⟨first, last, hentries, -, hlast⟩ := List.filterMap_eq_append_iff.mp hsplit
  obtain ⟨middle, ⟨c, text⟩, later, rfl, -, hmade, rfl⟩ := List.filterMap_eq_cons_iff.mp hlast
  obtain ⟨hne, rfl, rfl⟩ := Entry.keyed_eq_some_iff.mp hmade
  rw [← List.append_assoc] at hentries
  have hordered := styles.ordered
  rw [hentries, List.pairwise_append] at hordered
  refine ⟨c, text, ⟨?_, hne, rfl, ?_⟩, rfl⟩
  · rw [SortedMap.find?_eq_some_iff, hentries]
    exact List.mem_append_right _ List.mem_cons_self
  · intro d hd hkey
    obtain ⟨other, hother, hother_ne⟩ := hd
    rw [SortedMap.find?_eq_some_iff, hentries, List.mem_append, List.mem_cons] at hother
    rcases hother with hbefore | hhere | hbehind
    · exact .inr (hordered.2.2 _ hbefore _ List.mem_cons_self)
    · exact .inl (Prod.mk.inj hhere).1
    · -- a later description would make a later entry
      have hmade := Entry.keyed_eq_some_iff.mpr ⟨hother_ne, hkey, rfl⟩
      exact absurd (List.mem_filterMap.mpr ⟨(d, other), hbehind, hmade⟩) (hback _)

/-- The entry of a key is the one that the description of the prevailing category makes. -/
theorem find?_entries_eq_some_iff {e : Entry} :
    (ofDescriptions background styles).entries.find? key = some e ↔
      ∃ c text, Prevails styles key c text ∧ e = ⟨c, .ofDescription text⟩ := by
  refine ⟨exists_prevails, fun h => ?_⟩
  obtain ⟨c, text, hprevails, rfl⟩ := h
  -- the key has an entry, and no other category prevails
  have hcontains : (ofDescriptions background styles).entries.contains key = true :=
    contains_entries_iff.mpr ⟨c, hprevails.isDescribed, hprevails.key_eq⟩
  obtain ⟨e, he⟩ := Option.isSome_iff_exists.mp hcontains
  obtain ⟨d, other, hother, rfl⟩ := exists_prevails he
  obtain ⟨rfl, rfl⟩ := hprevails.unique hother
  exact he

/-! ## Empty descriptions -/

/-- What is still described once a description is emptied was so before. -/
theorem IsDescribed.of_insert_empty (h : IsDescribed (styles.insert d "") c) :
    IsDescribed styles c := by
  obtain ⟨text, htext, hne⟩ := h
  rw [SortedMap.find?_insert_eq_ite] at htext
  split at htext
  · exact absurd (Option.some.inj htext).symm hne
  · exact ⟨text, htext, hne⟩

/-- An empty description of another category does not change which one prevails, wherever that
    category stands in the order. -/
theorem Prevails.insert_empty (h : Prevails styles key c text) (hd : d ≠ c) :
    Prevails (styles.insert d "") key c text where
  find?_eq := by rw [SortedMap.find?_insert_eq_ite, if_neg hd, h.find?_eq]
  ne_empty := h.ne_empty
  key_eq := h.key_eq
  eq_or_lt other hother hkey := h.eq_or_lt other hother.of_insert_empty hkey

/-! ## Keys without collisions -/

/-- Where no segment contains a dot, every category that is described prevails. -/
theorem prevails_iff (hstyles : ∀ c ∈ styles.keys, c.IsPlain) : Prevails styles key c text ↔
    styles.find? c = some text ∧ text ≠ "" ∧ c.key = key := by
  have hplain : ∀ {d other}, styles.find? d = some other → d.IsPlain :=
    fun h => hstyles _ (SortedMap.mem_keys_iff.mpr ⟨_, h⟩)
  constructor
  · intro h
    exact ⟨h.find?_eq, h.ne_empty, h.key_eq⟩
  · intro h
    obtain ⟨htext, hne, rfl⟩ := h
    refine ⟨htext, hne, rfl, fun d hd hkey => ?_⟩
    obtain ⟨other, hother, -⟩ := hd
    exact .inl ((Category.key_inj (hplain hother) (hplain htext)).mp hkey)

/-- Where no segment contains a dot, there are as many entries as descriptions that are not
    empty. -/
theorem length_entries_ofDescriptions (hstyles : ∀ c ∈ styles.keys, c.IsPlain) :
    (ofDescriptions background styles).entries.entries.length =
      styles.values.countP fun text => text ≠ "" := by
  rw [ofDescriptions]
  -- plain categories have different keys, so no entry takes the place of another one
  rw [(SortedMap.perm_entries_ofList ?_).length_eq, List.length_filterMap_eq_countP,
    SortedMap.values, List.countP_map]
  · refine List.countP_congr fun x _ => ?_
    simp [Entry.ofDescription?]
  · -- two entries of one key would be of one category, and these are in strict order
    rw [List.Nodup, List.pairwise_map, List.pairwise_filterMap]
    refine styles.ordered.imp_of_mem fun {x y} hx hy hlt => ?_
    rintro ⟨key, e⟩ he ⟨other, e'⟩ he' rfl
    obtain ⟨-, hkey, -⟩ := Entry.keyed_eq_some_iff.mp he
    obtain ⟨-, hkey', -⟩ := Entry.keyed_eq_some_iff.mp he'
    have hx_plain := hstyles x.1 (List.mem_map.mpr ⟨x, hx, rfl⟩)
    have hy_plain := hstyles y.1 (List.mem_map.mpr ⟨y, hy, rfl⟩)
    rw [(Category.key_inj hx_plain hy_plain).mp (hkey.trans hkey'.symm)] at hlt
    exact Std.OrientedCmp.not_lt_of_lt hlt hlt

/-! ## All descriptions -/

/-- Whatever the segments of the categories are, a palette has an entry for exactly those keys that
    belong to a category with a description that is not empty, and of several such categories with
    one key the greatest one gives the entry.  The category of an entry has the key of the entry,
    and the entry stays when another category gets an empty description.  Where no segment contains
    a dot, no description that is not empty is lost. -/
theorem entries_ofDescriptions (background : Option String) (styles : Descriptions) :
    (∀ key, (ofDescriptions background styles).entries.contains key = true ↔
      ∃ c, IsDescribed styles c ∧ c.key = key) ∧
    (∀ key e, (ofDescriptions background styles).entries.find? key = some e ↔
      ∃ c text, Prevails styles key c text ∧ e = ⟨c, .ofDescription text⟩) ∧
    (∀ key e, (ofDescriptions background styles).entries.find? key = some e →
      e.category.key = key ∧ ∀ d, d ≠ e.category →
        (ofDescriptions background (styles.insert d "")).entries.find? key = some e) ∧
    ((∀ c ∈ styles.keys, c.IsBuilt ∧ ∀ s ∈ c.segments, '.' ∉ s.toList) →
      (ofDescriptions background styles).entries.entries.length =
        styles.values.countP fun text => text ≠ "") := by
  refine ⟨fun key => contains_entries_iff, fun key e => find?_entries_eq_some_iff,
    fun key e he => ?_, fun hstyles => ?_⟩
  · obtain ⟨c, text, hprevails, rfl⟩ := find?_entries_eq_some_iff.mp he
    refine ⟨hprevails.key_eq, fun d hd => ?_⟩
    exact find?_entries_eq_some_iff.mpr ⟨c, text, hprevails.insert_empty hd, rfl⟩
  · exact length_entries_ofDescriptions fun c hc => (hstyles c hc).1.isPlain (hstyles c hc).2

/-- The name `a.b` below the root and the name `b` below `a` have the same key.  The first one is
    the greater category, and gives the entry unless its description is empty. -/
theorem entries_ofDescriptions_of_dot :
    let lower : Category := (Category.ofKey "a").child "b"
    let upper : Category := .ofSegments ["a.b"]
    let single : Descriptions := .ofList [(lower, "bold #111"), (.ofKey "c", "")]
    let both : Descriptions := single.insert upper "#222"
    (∃ c text, Prevails both "a.b" c text ∧ Entry.mk upper ⟨some "#222", false⟩ =
        ⟨c, .ofDescription text⟩) ∧
      (ofDescriptions none single).entries.find? "a.b" = some ⟨lower, ⟨some "#111", true⟩⟩ ∧
      (ofDescriptions none (single.insert upper "")).entries.find? "a.b" =
        some ⟨lower, ⟨some "#111", true⟩⟩ ∧
      (∀ c ∈ single.keys, c.IsBuilt ∧ ∀ s ∈ c.segments, '.' ∉ s.toList) ∧
      (ofDescriptions none single).entries.entries.length = 1 := by
  intro lower upper single both
  have hsingle : (ofDescriptions none single).entries.find? "a.b" =
      some ⟨lower, ⟨some "#111", true⟩⟩ := by decide
  have hbuilt : ∀ c ∈ single.keys, c.IsBuilt ∧ ∀ s ∈ c.segments, '.' ∉ s.toList := by
    intro c hc
    have hkeys : single.keys = [lower, .ofKey "c"] := by decide
    rw [hkeys] at hc
    rcases List.mem_pair.mp hc with rfl | rfl
    · exact ⟨.child (.ofKey "a") "b", by decide⟩
    · exact ⟨.ofKey "c", by decide⟩
  -- without the upper one the entry stays, and the described categories are counted
  obtain ⟨-, -, hstays, hlength⟩ := entries_ofDescriptions none single
  refine ⟨((entries_ofDescriptions none both).2.1 "a.b" _).mp (by decide), hsingle, ?_, hbuilt, ?_⟩
  · exact (hstays "a.b" _ hsingle).2 upper (by decide)
  · exact (hlength hbuilt).trans (by decide)

end Tinct.Palette
