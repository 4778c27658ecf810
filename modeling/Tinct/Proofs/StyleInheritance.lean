import Tinct.Proofs.CategoryHierarchy
import Tinct.Proofs.SortedMaps
import Tinct.Proofs.StyleDescriptions
import Tinct.Theme.Palette

/-!
# Where a category takes its style from

The color and the weight of a category come from the categories above it, by two rules that run in
one search.  The search is taken apart into one for each of them, and each is then described by the
descriptions that a palette is made of: the color comes from the closest one that names a color, the
weight from the closest one that is not empty.

## Key results

- `resolveFrom_eq`: the search for a style is a search for its color and a search for its weight
- `find?_ofDescriptions`: the entry of a category is that of its description
- `resolve_ofDescriptions`: the style of a category in terms of the descriptions
-/

namespace Tinct.Palette

/-! ## The search -/

/-- The search for a style finds the first color and the first weight, each where no earlier one is
    given. -/
theorem resolveFrom_eq (p : Palette) (color : Option String) (bold : Option Bool)
    (above : List Category) :
    p.resolveFrom color bold above =
      ⟨color.or (above.findSome? p.color?), (bold.or (above.findSome? p.bold?)).getD false⟩ := by
  induction above generalizing color bold with
  | nil => rw [resolveFrom, List.findSome?_nil, List.findSome?_nil, Option.or_none, Option.or_none]
  | cons c rest ih =>
    -- what is found here counts before what is found further above
    have hcolor : color.or ((c :: rest).findSome? p.color?) =
        (color.or (p.color? c)).or (rest.findSome? p.color?) := by
      rw [Option.or_assoc, List.findSome?_cons]
      cases p.color? c <;> rfl
    have hbold : bold.or ((c :: rest).findSome? p.bold?) =
        (bold.or (p.bold? c)).or (rest.findSome? p.bold?) := by
      rw [Option.or_assoc, List.findSome?_cons]
      cases p.bold? c <;> rfl
    rw [hcolor, hbold, resolveFrom]
    split
    · -- the search stops: both are found, and what follows would not count
      rename_i hboth
      obtain ⟨hcolorSome, hboldSome⟩ := Bool.and_eq_true_iff.mp hboth
      rw [Option.or_of_isSome hcolorSome, Option.or_of_isSome hboldSome]
    · exact ih _ _

/-! ## Entries of descriptions -/

variable {background : Option String} {styles : Descriptions} {c d : Category}

/-- A description that is not empty makes an entry. -/
theorem Entry.ofDescription?_eq_some_iff {text : String} {e : Entry} :
    Entry.ofDescription? d text = some e ↔ text ≠ "" ∧ e = ⟨d, .ofDescription text⟩ := by
  unfold Entry.ofDescription?
  by_cases hempty : text = ""
  · simp [hempty]
  · rw [if_neg hempty, Option.some.injEq]
    exact ⟨fun h => ⟨hempty, h.symm⟩, fun h => h.2.symm⟩

/-- A description makes an entry, under the key of its category, exactly if it is not empty. -/
theorem Entry.keyed_eq_some_iff {key text : String} {e : Entry} :
    (Entry.ofDescription? d text).map (fun e => (e.category.key, e)) = some (key, e) ↔
      text ≠ "" ∧ d.key = key ∧ e = ⟨d, .ofDescription text⟩ := by
  rw [Option.map_eq_some_iff]
  constructor
  · intro h
    obtain ⟨made, hmade, hkey⟩ := h
    obtain ⟨hne, rfl⟩ := Entry.ofDescription?_eq_some_iff.mp hmade
    obtain ⟨rfl, rfl⟩ := Prod.mk.inj hkey
    exact ⟨hne, rfl, rfl⟩
  · intro h
    obtain ⟨hne, rfl, rfl⟩ := h
    exact ⟨_, Entry.ofDescription?_eq_some_iff.mpr ⟨hne, rfl⟩, rfl⟩

/-- The entries that a palette of descriptions has for the key of a category: no other category has
    this key. -/
private theorem mem_keyed_iff (hstyles : ∀ d ∈ styles.keys, d.IsPlain) (hd : d.IsPlain)
    {e : Entry} :
    (d.key, e) ∈ styles.entries.filterMap (fun (category, text) =>
      (Entry.ofDescription? category text).map fun e => (e.category.key, e)) ↔
    ∃ text, styles.find? d = some text ∧ Entry.ofDescription? d text = some e := by
  simp only [List.mem_filterMap, Prod.exists, Entry.keyed_eq_some_iff,
    Entry.ofDescription?_eq_some_iff, SortedMap.find?_eq_some_iff]
  constructor
  · intro h
    obtain ⟨other, text, hmem, hne, hkey, rfl⟩ := h
    -- the key is that of no other category
    have hplain := hstyles other (List.mem_map.mpr ⟨_, hmem, rfl⟩)
    obtain rfl := (Category.key_inj hplain hd).mp hkey
    exact ⟨text, hmem, hne, rfl⟩
  · intro h
    obtain ⟨text, hmem, hne, he⟩ := h
    exact ⟨d, text, hmem, hne, rfl, he⟩

/-- The entry of a category is the one that its own description makes. -/
theorem find?_ofDescriptions (hstyles : ∀ d ∈ styles.keys, d.IsPlain) (hd : d.IsPlain) :
    (ofDescriptions background styles).find? d =
      (styles.find? d).bind (Entry.ofDescription? d) := by
  refine Option.ext fun e => ?_
  rw [Option.bind_eq_some_iff, ← mem_keyed_iff hstyles hd]
  refine SortedMap.find?_ofList_eq_some_iff fun other he hother => ?_
  obtain ⟨text, htext, he⟩ := (mem_keyed_iff hstyles hd).mp he
  obtain ⟨same, hsame, hother⟩ := (mem_keyed_iff hstyles hd).mp hother
  obtain rfl : text = same := Option.some.inj (htext.symm.trans hsame)
  exact Option.some.inj (he.symm.trans hother)

/-- The color of a category in a palette is the color word of its description. -/
theorem color?_ofDescriptions (hstyles : ∀ d ∈ styles.keys, d.IsPlain) (hd : d.IsPlain)
    {word : String} :
    (ofDescriptions background styles).color? d = some word ↔
      ∃ text, styles.find? d = some text ∧ colorWord? text = some word := by
  simp only [color?, find?_ofDescriptions hstyles hd, Option.bind_eq_some_iff,
    Entry.ofDescription?_eq_some_iff]
  constructor
  · intro h
    obtain ⟨e, ⟨text, htext, -, rfl⟩, hcolor⟩ := h
    rw [Style.ofDescription_eq] at hcolor
    exact ⟨text, htext, hcolor⟩
  · intro h
    obtain ⟨text, htext, hcolor⟩ := h
    -- without words there is no color word
    have hne : text ≠ "" := by
      intro h
      subst h
      rw [colorWord?, words_empty] at hcolor
      cases hcolor
    refine ⟨_, ⟨text, htext, hne, rfl⟩, ?_⟩
    rw [Style.ofDescription_eq]
    exact hcolor

/-- The weight of a category in a palette is what its description says of it. -/
theorem bold?_ofDescriptions (hstyles : ∀ d ∈ styles.keys, d.IsPlain) (hd : d.IsPlain)
    {bold : Bool} :
    (ofDescriptions background styles).bold? d = some bold ↔
      ∃ text, styles.find? d = some text ∧ text ≠ "" ∧ saysBold text = bold := by
  simp only [bold?, find?_ofDescriptions hstyles hd, Option.map_eq_some_iff,
    Option.bind_eq_some_iff, Entry.ofDescription?_eq_some_iff]
  constructor
  · intro h
    obtain ⟨e, ⟨text, htext, hne, rfl⟩, hbold⟩ := h
    rw [Style.ofDescription_eq] at hbold
    exact ⟨text, htext, hne, hbold⟩
  · intro h
    obtain ⟨text, htext, hne, hbold⟩ := h
    refine ⟨_, ⟨text, htext, hne, rfl⟩, ?_⟩
    rw [Style.ofDescription_eq]
    exact hbold

/-! ## Inheritance -/

/-- The description of a category has a color word. -/
def NamesColor (styles : Descriptions) (d : Category) : Prop :=
  ∃ text, styles.find? d = some text ∧ ∃ word ∈ words text, isColorWord word

/-- A category has a description that is not empty. -/
def IsDescribed (styles : Descriptions) (d : Category) : Prop :=
  ∃ text, styles.find? d = some text ∧ text ≠ ""

/-- A category has a color of its own exactly if its description names one. -/
theorem color?_isSome_iff (hstyles : ∀ d ∈ styles.keys, d.IsPlain) (hd : d.IsPlain) :
    ((ofDescriptions background styles).color? d).isSome ↔ NamesColor styles d := by
  simp only [Option.isSome_iff_exists, color?_ofDescriptions hstyles hd, NamesColor,
    ← colorWord?_isSome_iff]
  exact exists_comm.trans (exists_congr fun _ => exists_and_left)

/-- A category has a weight of its own exactly if it is described. -/
theorem bold?_isSome_iff (hstyles : ∀ d ∈ styles.keys, d.IsPlain) (hd : d.IsPlain) :
    ((ofDescriptions background styles).bold? d).isSome ↔ IsDescribed styles d := by
  simp only [Option.isSome_iff_exists, bold?_ofDescriptions hstyles hd, IsDescribed]
  exact exists_comm.trans (exists_congr fun _ => by simp)

/-- The search for a color ends at the closest category whose description has a color word. -/
theorem findSome?_color?_eq_some_iff (hstyles : ∀ d ∈ styles.keys, d.IsPlain) (hc : c.IsPlain)
    {word : String} :
    c.ancestors.findSome? (ofDescriptions background styles).color? = some word ↔
      ∃ d text, Category.IsClosest (NamesColor styles) c d ∧ styles.find? d = some text ∧
        colorWord? text = some word := by
  rw [Category.findSome?_ancestors_eq_some_iff fun d hd =>
    color?_isSome_iff hstyles (hc.of_isWithin hd)]
  refine exists_congr fun d => ?_
  rw [exists_and_left]
  refine and_congr_right fun hclosest => ?_
  exact color?_ofDescriptions hstyles (hc.of_isWithin hclosest.isWithin)

/-- The search for a weight ends at the closest category with a description that is not empty. -/
theorem findSome?_bold?_eq_some_iff (hstyles : ∀ d ∈ styles.keys, d.IsPlain) (hc : c.IsPlain)
    {bold : Bool} :
    c.ancestors.findSome? (ofDescriptions background styles).bold? = some bold ↔
      ∃ d text, Category.IsClosest (IsDescribed styles) c d ∧ styles.find? d = some text ∧
        saysBold text = bold := by
  rw [Category.findSome?_ancestors_eq_some_iff fun d hd =>
    bold?_isSome_iff hstyles (hc.of_isWithin hd)]
  refine exists_congr fun d => ?_
  rw [exists_and_left]
  refine and_congr_right fun hclosest => ?_
  rw [bold?_ofDescriptions hstyles (hc.of_isWithin hclosest.isWithin)]
  -- the closest category has a description that is not empty
  obtain ⟨own, hown, hne⟩ := hclosest.holds
  simp [hown, hne]

/-- The color of a category is the last color word in the description of the closest category whose
    description has one, and there is no color if there is no such description.  The category is
    bold if `bold` is a word in the description of the closest category with a description that is
    not empty.  In both cases the closest category is the category itself or lies above it. -/
theorem resolve_ofDescriptions (background : Option String) (styles : Descriptions) (c : Category)
    (hstyles : ∀ d ∈ styles.keys, d.IsPlain) (hc : c.IsPlain) :
    (∀ word, ((ofDescriptions background styles).resolve c).color = some word ↔
      ∃ d text, Category.IsClosest (NamesColor styles) c d ∧ styles.find? d = some text ∧
        colorWord? text = some word) ∧
    (((ofDescriptions background styles).resolve c).color = none ↔
      ∀ d, c.isWithin d → ¬ NamesColor styles d) ∧
    (((ofDescriptions background styles).resolve c).bold = true ↔
      ∃ d text, Category.IsClosest (IsDescribed styles) c d ∧ styles.find? d = some text ∧
        "bold" ∈ words text) := by
  rw [resolve, resolveFrom_eq, Option.none_or, Option.none_or]
  refine ⟨fun word => findSome?_color?_eq_some_iff hstyles hc, ?_, ?_⟩
  · -- no color is found where no category above names one
    rw [List.findSome?_eq_none_iff]
    refine forall_congr' fun d => ?_
    rw [Category.mem_ancestors_iff]
    refine imp_congr_right fun hd => ?_
    rw [← color?_isSome_iff hstyles (hc.of_isWithin hd), Option.not_isSome_iff_eq_none]
  · -- where no weight is found, the style is not bold
    have hbold : ∀ found : Option Bool, found.getD false = true ↔ found = some true := by
      intro found
      cases found <;> simp
    rw [hbold, findSome?_bold?_eq_some_iff hstyles hc]
    simp only [saysBold, List.contains_iff_mem]

/-- A tag is not bold, since its own description is a blank, but has the color of the names. -/
theorem resolve_ofDescriptions_of_tag :
    let styles : Descriptions :=
      .ofList [(⟨[]⟩, "#111"), (⟨["Name"]⟩, "bold #222 #333"), (⟨["Name", "Tag"]⟩, " ")]
    let tag : Category := .ofKey "Name.Tag"
    (∃ d text, Category.IsClosest (NamesColor styles) tag d ∧ styles.find? d = some text ∧
      colorWord? text = some "#333") ∧
    ¬ ∃ d text, Category.IsClosest (IsDescribed styles) tag d ∧ styles.find? d = some text ∧
      "bold" ∈ words text := by
  intro styles tag
  obtain ⟨hcolor, -, hbold⟩ :=
    resolve_ofDescriptions none styles tag (by decide) (Category.isPlain_ofKey _)
  refine ⟨(hcolor "#333").mp (by decide), fun h => ?_⟩
  exact absurd (hbold.mpr h) (by decide)

end Tinct.Palette
