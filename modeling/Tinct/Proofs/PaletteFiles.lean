import Tinct.Proofs.JsonRecords
import Tinct.Proofs.JsonRoundTrip
import Tinct.Proofs.Redescription
import Tinct.Session
import Tinct.Theme.Written

/-!
# Palettes are read back

The JSON form of a palette leaves out the categories of its entries, and nothing else, so a palette
that is read back has the root in all of them.  Styles are looked up by the keys of the entries and
do not depend on the categories in them.  The descriptions of a palette name categories by its keys,
so where keys can be read the palette is made again, with its categories.

## Key results

- `ofJson?_toJson`: what is read back is the palette without its categories
- `style?_uncategorized`, `resolve_uncategorized`: it has the same styles
- `toJson_uncategorized`, `descriptions_uncategorized`: it is written and described in the same way
- `read?_print_uncategorized`: palettes that are printed and read back
-/

namespace Tinct

namespace Style

/-- A style is written with characters only. -/
theorem isPlain_toJson (s : Style) : s.toJson.isPlain = true := by
  refine Json.isPlain_ofMembers fun m hm => ?_
  rcases List.mem_pair.mp hm with rfl | rfl
  · exact Json.isPlain_ofString? s.color
  · rfl

/-- A style is read back. -/
theorem ofJson?_toJson (s : Style) : ofJson? s.toJson = some s := by
  have hrecord : s.toJson.record? ["color", "bold"] =
      some [some (.ofString? s.color), some (.bool s.bold)] :=
    Json.record?_ofMembers [("color", .ofString? s.color), ("bold", .bool s.bold)]
      (show ["color", "bold"].Nodup by decide)
  rw [ofJson?, hrecord]
  simp only [Json.optionalText?_ofString?]
  rfl

end Style

namespace Palette

/-! ## Reading a written palette -/

/-- The palette with the root as the category of every entry. -/
def uncategorized (p : Palette) : Palette :=
  { p with entries := p.entries.mapValues fun e => { e with category := .root } }

/-- A palette is written with characters only. -/
theorem isPlain_toJson (p : Palette) : p.toJson.isPlain = true := by
  refine Json.isPlain_ofMembers fun m hm => ?_
  rcases List.mem_pair.mp hm with rfl | rfl
  · exact Json.isPlain_ofString? p.background
  · refine Json.isPlain_ofMembers fun m hm => ?_
    obtain ⟨⟨key, e⟩, -, rfl⟩ := List.mem_map.mp hm
    exact e.style.isPlain_toJson

/-- All of a palette is read back, except for the categories of its entries. -/
theorem ofJson?_toJson (p : Palette) : ofJson? p.toJson = some p.uncategorized := by
  let styles := p.entries.entries.map fun x => (x.1, x.2.style.toJson)
  -- the two members are found by their names
  have hrecord : p.toJson.record? ["backgroundColor", "styles"] =
      some [some (.ofString? p.background), some (.ofMembers styles)] :=
    Json.record?_ofMembers
      [("backgroundColor", .ofString? p.background), ("styles", .ofMembers styles)]
      (show ["backgroundColor", "styles"].Nodup by decide)
  -- and every style is read back at its key
  have hentries : styles.mapM (fun x =>
      (Style.ofJson? x.2).map fun style => (x.1, Entry.mk .root style)) =
        some p.uncategorized.entries.entries := by
    refine mapM_map_of_read fun x _ => ?_
    rw [Style.ofJson?_toJson, Option.map_some]
  rw [ofJson?, hrecord]
  simp only [Json.members?_ofMembers, Json.optionalText?_ofString?]
  refine (congrArg (Option.bind · _) hentries).trans ?_
  -- the keys of a map ascend, so no entry takes the place of another one
  rw [Option.bind_some, SortedMap.ofList_entries]
  rfl

/-! ## What does not depend on the categories -/

/-- Without categories a palette has the same styles. -/
theorem style?_uncategorized (p : Palette) (c : Category) :
    (p.uncategorized.find? c).map (·.style) = (p.find? c).map (·.style) := by
  rw [find?, uncategorized, SortedMap.find?_mapValues, Option.map_map]
  rfl

theorem resolve_uncategorized (p : Palette) (c : Category) :
    p.uncategorized.resolve c = p.resolve c := by
  -- both parts of a style are parts of the styles in the entries
  have hparts : ∀ (q : Palette) (d : Category),
      q.color? d = ((q.find? d).map (·.style)).bind (·.color) ∧
        q.bold? d = ((q.find? d).map (·.style)).map (·.bold) := by
    intro q d
    rw [color?, bold?, Option.bind_map, Option.map_map]
    exact ⟨rfl, rfl⟩
  have hcolor : p.uncategorized.color? = p.color? := by
    funext d
    rw [(hparts _ d).1, style?_uncategorized, ← (hparts p d).1]
  have hbold : p.uncategorized.bold? = p.bold? := by
    funext d
    rw [(hparts _ d).2, style?_uncategorized, ← (hparts p d).2]
  rw [resolve, resolve, resolveFrom_eq, resolveFrom_eq, hcolor, hbold]

/-- Without categories a palette is written as the same value. -/
theorem toJson_uncategorized (p : Palette) : p.uncategorized.toJson = p.toJson := by
  rw [toJson, uncategorized, SortedMap.mapValues, List.map_map]
  rfl

/-- Without categories a palette is described in the same way. -/
theorem descriptions_uncategorized (p : Palette) :
    p.uncategorized.descriptions = p.descriptions := by
  rw [descriptions, uncategorized, SortedMap.mapValues, List.map_map]
  rfl

/-! ## Palettes that are printed -/

/-- A palette that is printed, in either layout, is read back without the categories of its
    entries, whatever its keys, colors and background are.  What is read back gives every category
    the same style, is printed in the same way and has the same descriptions.  If the palette is
    that of descriptions whose categories are read from keys, and none that is described starts with
    `Token`, these descriptions bring all of it back, with the categories. -/
theorem read?_print_uncategorized :
    (∀ (s : Session) (p : Palette), read? (s.print p.toJson) = some p.uncategorized) ∧
    (∀ p : Palette, (∀ c, p.uncategorized.resolve c = p.resolve c) ∧
      (∀ s : Session, s.print p.uncategorized.toJson = s.print p.toJson) ∧
      p.uncategorized.descriptions = p.descriptions) ∧
    ∀ (s : Session) (background : Option String) (styles : Descriptions),
      (∀ c ∈ styles.keys, ∃ key, c = .ofKey key) → ¬ DescribesToken styles →
        (read? (s.print (ofDescriptions background styles).toJson)).map
            (fun p => ofDescriptions background p.descriptions) =
          some (ofDescriptions background styles) := by
  have hread : ∀ (s : Session) (p : Palette), read? (s.print p.toJson) = some p.uncategorized := by
    intro s p
    rw [read?, Session.print, Json.parse?_print p.isPlain_toJson]
    exact p.ofJson?_toJson
  refine ⟨hread, fun p => ?_, fun s background styles hstyles htoken => ?_⟩
  · refine ⟨p.resolve_uncategorized, fun s => ?_, p.descriptions_uncategorized⟩
    rw [toJson_uncategorized]
  · -- categories that are read from keys are plain
    have hplain : ∀ c ∈ styles.keys, c.IsPlain := by
      intro c hc
      obtain ⟨key, rfl⟩ := hstyles c hc
      exact Category.isPlain_ofKey key
    rw [hread, Option.map_some, descriptions_uncategorized,
      ofDescriptions_descriptions_of_not hplain htoken]

/-- A key with a quote and a character beyond 16 bits, and the root. -/
theorem read?_print_uncategorized_of_quote :
    let styles : Descriptions := .ofList [(.ofKey "Name.\"😀", "#111"), (.ofKey "", "bold")]
    (∀ c ∈ styles.keys, ∃ key, c = .ofKey key) ∧ ¬ DescribesToken styles ∧
      (read? (({} : Session).print (ofDescriptions none styles).toJson)).map
          (fun p => ofDescriptions none p.descriptions) =
        some ⟨none, .ofList [("", ⟨.root, ⟨none, true⟩⟩),
          ("Name.\"😀", ⟨⟨["Name", "\"😀"]⟩, ⟨some "#111", false⟩⟩)]⟩ := by
  intro styles
  have hread : ∀ c ∈ styles.keys, c = .ofKey c.key ∧ c.segments.head? ≠ some "Token" := by
    decide +kernel
  have hstyles : ∀ c ∈ styles.keys, ∃ key, c = .ofKey key :=
    fun c hc => ⟨c.key, (hread c hc).1⟩
  have htoken : ¬ DescribesToken styles := by
    intro h
    obtain ⟨c, text, htext, -, hhead⟩ := h
    exact (hread c (SortedMap.mem_keys_iff.mpr ⟨text, htext⟩)).2 hhead
  refine ⟨hstyles, htoken, ?_⟩
  exact (read?_print_uncategorized.2.2 {} none styles hstyles htoken).trans (by decide +kernel)

end Palette

end Tinct
