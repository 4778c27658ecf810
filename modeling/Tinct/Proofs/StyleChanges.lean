import Tinct.Proofs.StyleInheritance

/-!
# Changes to a single description

The description of one category may be added, replaced or removed.  The styles of categories that
are not in its subtree stay as they are, whatever their keys look like.  Inside the subtree, a
category on the way up that says something itself keeps the change away from everything below it;
for colors and for weights this is not the same category.

## Key results

- `Category.findSome?_ancestors_congr`, `Category.findSome?_ancestors_of_isBetween`: a search through
  the ancestors that does not reach a change
- `resolve_of_changedAt`: the styles that a change to a single description does not reach
-/

namespace Tinct

theorem findSome?_congr {α β : Type} {f g : α → Option β} {l : List α}
    (h : ∀ a ∈ l, f a = g a) : l.findSome? f = l.findSome? g := by
  induction l with
  | nil => rfl
  | cons a l ih =>
    rw [List.findSome?_cons, List.findSome?_cons, h a List.mem_cons_self,
      ih fun b hb => h b (List.mem_cons_of_mem a hb)]

namespace Category

/-- The category `e` is `c` or lies above it, and is strictly below `d`. -/
structure IsBetween (c d e : Category) : Prop where
  isWithin : c.isWithin e
  below : e.isWithin d
  ne : e ≠ d

variable {α : Type} {f g : Category → Option α} {c d e : Category}

/-- A search from a category outside the subtree of `d` does not come to `d`. -/
theorem findSome?_ancestors_congr (hsame : ∀ e, c.isWithin e → e ≠ d → f e = g e)
    (houtside : ¬ c.isWithin d) : c.ancestors.findSome? f = c.ancestors.findSome? g := by
  refine findSome?_congr fun e he => ?_
  have hwithin := mem_ancestors_iff.mp he
  refine hsame e hwithin ?_
  rintro rfl
  exact houtside hwithin

/-- Neither does a search that finds something strictly below `d`. -/
theorem findSome?_ancestors_of_isBetween (hsame : ∀ e, c.isWithin e → e ≠ d → f e = g e)
    (hbetween : IsBetween c d e) (hfound : (f e).isSome) :
    c.ancestors.findSome? f = c.ancestors.findSome? g := by
  obtain ⟨front, back, hsplit⟩ :=
    List.append_of_mem (mem_ancestors_iff.mpr hbetween.isWithin)
  -- what is listed before `e` lies within `e`, and so is not `d` either
  have hfront : ∀ x ∈ front, f x = g x := by
    intro x hx
    have hchain := c.pairwise_isWithin_ancestors
    rw [hsplit, List.pairwise_append] at hchain
    have hx_within : x.isWithin e := hchain.2.2 x hx e List.mem_cons_self
    refine hsame x (mem_ancestors_iff.mp (by simp [hsplit, hx])) ?_
    rintro rfl
    exact hbetween.ne (isWithin_antisymm hbetween.below hx_within)
  have hhere : f e = g e := hsame e hbetween.isWithin hbetween.ne
  obtain ⟨a, ha⟩ := Option.isSome_iff_exists.mp hfound
  rw [hsplit, List.findSome?_append, List.findSome?_append, findSome?_congr hfront,
    List.findSome?_cons, List.findSome?_cons, ← hhere, ha]

end Category

namespace Palette

variable {background : Option String} {styles other : Descriptions} {c d e : Category}

/-- The second descriptions are the first ones with that of one category added, replaced or
    removed. -/
def ChangedAt (d : Category) (styles other : Descriptions) : Prop :=
  ∀ e, e ≠ d → other.find? e = styles.find? e

theorem ChangedAt.symm (h : ChangedAt d styles other) : ChangedAt d other styles :=
  fun e he => (h e he).symm

/-- Describing a category changes the descriptions there. -/
theorem changedAt_insert (styles : Descriptions) (d : Category) (text : String) :
    ChangedAt d styles (styles.insert d text) := by
  intro e he
  rw [SortedMap.find?_insert_eq_ite, if_neg (Ne.symm he)]

namespace ChangedAt

/-- A change at a plain category leaves plain categories. -/
theorem isPlain (h : ChangedAt d styles other) (hstyles : ∀ e ∈ styles.keys, e.IsPlain)
    (hd : d.IsPlain) : ∀ e ∈ other.keys, e.IsPlain := by
  intro e he
  obtain ⟨text, htext⟩ := SortedMap.mem_keys_iff.mp he
  by_cases hed : e = d
  · rw [hed]
    exact hd
  · rw [h e hed] at htext
    exact hstyles e (SortedMap.mem_keys_iff.mpr ⟨text, htext⟩)

/-- At other categories the palettes have the same entries. -/
theorem find?_eq (h : ChangedAt d styles other) (hstyles : ∀ e ∈ styles.keys, e.IsPlain)
    (hd : d.IsPlain) (he : e.IsPlain) (hne : e ≠ d) :
    (ofDescriptions background styles).find? e = (ofDescriptions background other).find? e := by
  rw [find?_ofDescriptions hstyles he, find?_ofDescriptions (h.isPlain hstyles hd) he, h e hne]

end ChangedAt

/-- A change to the description of a category `d` does not reach the categories outside the subtree
    of `d`.  Of a category inside the subtree it does not reach the color if the category, or one
    between it and `d`, names a color, and it does not reach the weight if one of them has a
    description that is not empty. -/
theorem resolve_of_changedAt (background : Option String) (styles other : Descriptions)
    (c d : Category) (hstyles : ∀ e ∈ styles.keys, e.IsPlain) (hc : c.IsPlain) (hd : d.IsPlain)
    (hchanged : ChangedAt d styles other) :
    (¬ c.isWithin d → (ofDescriptions background other).resolve c =
      (ofDescriptions background styles).resolve c) ∧
    ((∃ e, Category.IsBetween c d e ∧ NamesColor styles e) →
      ((ofDescriptions background other).resolve c).color =
        ((ofDescriptions background styles).resolve c).color) ∧
    ((∃ e, Category.IsBetween c d e ∧ IsDescribed styles e) →
      ((ofDescriptions background other).resolve c).bold =
        ((ofDescriptions background styles).resolve c).bold) := by
  -- above the category all entries are the same but the one that was changed
  have hfind : ∀ e, c.isWithin e → e ≠ d →
      (ofDescriptions background styles).find? e = (ofDescriptions background other).find? e :=
    fun e he hne => hchanged.find?_eq hstyles hd (hc.of_isWithin he) hne
  have hcolor : ∀ e, c.isWithin e → e ≠ d →
      (ofDescriptions background styles).color? e = (ofDescriptions background other).color? e := by
    intro e he hne
    rw [color?, color?, hfind e he hne]
  have hbold : ∀ e, c.isWithin e → e ≠ d →
      (ofDescriptions background styles).bold? e = (ofDescriptions background other).bold? e := by
    intro e he hne
    rw [bold?, bold?, hfind e he hne]
  -- a style is put together from two searches, each with its own first find
  simp only [resolve, resolveFrom_eq, Option.none_or]
  refine ⟨fun houtside => ?_, fun hshield => ?_, fun hshield => ?_⟩
  · rw [Category.findSome?_ancestors_congr hcolor houtside,
      Category.findSome?_ancestors_congr hbold houtside]
  · -- a color in between ends the search before the change is reached
    obtain ⟨e, hbetween, hnames⟩ := hshield
    have hfound : ((ofDescriptions background styles).color? e).isSome :=
      (color?_isSome_iff hstyles (hc.of_isWithin hbetween.isWithin)).mpr hnames
    exact (Category.findSome?_ancestors_of_isBetween hcolor hbetween hfound).symm
  · -- and so does a weight
    obtain ⟨e, hbetween, hdescribed⟩ := hshield
    have hfound : ((ofDescriptions background styles).bold? e).isSome :=
      (bold?_isSome_iff hstyles (hc.of_isWithin hbetween.isWithin)).mpr hdescribed
    rw [Category.findSome?_ancestors_of_isBetween hbold hbetween hfound]

/-- Without its description a tag has another style, but its neighbor, whose key only starts like
    that of a tag, and what lies below an identifier keep theirs. -/
theorem resolve_of_changedAt_tag :
    let tag : Category := .ofKey "Name.Tag"
    let neighbor : Category := .ofKey "Name.Tags"
    let identifier : Category := .ofKey "Name.Tag.Id"
    let first : Category := .ofKey "Name.Tag.Id.First"
    let other : Descriptions := .ofList [(.ofKey "Name", "#111"), (identifier, "italic #333")]
    let styles : Descriptions := other.insert tag "bold #222"
    ChangedAt tag styles other ∧ ¬ neighbor.isWithin tag ∧
      (ofDescriptions none other).resolve neighbor = (ofDescriptions none styles).resolve neighbor ∧
      Category.IsBetween first tag identifier ∧ NamesColor styles identifier ∧
      ((ofDescriptions none other).resolve first).color =
        ((ofDescriptions none styles).resolve first).color ∧
      IsDescribed styles identifier ∧
      ((ofDescriptions none other).resolve first).bold =
        ((ofDescriptions none styles).resolve first).bold := by
  intro tag neighbor identifier first other styles
  have hchanged : ChangedAt tag styles other := (changedAt_insert other tag "bold #222").symm
  have hstyles : ∀ e ∈ styles.keys, e.IsPlain := by decide
  -- the identifier shields what lies below it
  have hbetween : Category.IsBetween first tag identifier := ⟨by decide, by decide, by decide⟩
  have hnames : NamesColor styles identifier := ⟨_, rfl, "#333", by decide, by decide⟩
  have hdescribed : IsDescribed styles identifier := ⟨_, rfl, by decide⟩
  have houtside : ¬ neighbor.isWithin tag := by decide
  have hneighbor := resolve_of_changedAt none styles other neighbor tag hstyles
    (Category.isPlain_ofKey _) (Category.isPlain_ofKey _) hchanged
  have hfirst := resolve_of_changedAt none styles other first tag hstyles
    (Category.isPlain_ofKey _) (Category.isPlain_ofKey _) hchanged
  exact ⟨hchanged, houtside, hneighbor.1 houtside, hbetween, hnames,
    hfirst.2.1 ⟨identifier, hbetween, hnames⟩, hdescribed,
    hfirst.2.2 ⟨identifier, hbetween, hdescribed⟩⟩

end Palette

end Tinct
