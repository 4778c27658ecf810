import Mathlib.Data.List.Basic
import Tinct.Proofs.KeyCollisions

/-!
# Describing a palette again

An entry is described by the words for its color and its weight, and these words make it again if
the color can be read as one.  The descriptions of a palette name categories by reading its keys.
For most palettes they are descriptions of that very palette.  The exception are categories that
start with `Token`: a key is read without a leading `Token`, so their entries move up by one
segment, and none of them stays where it was.

## Key results

- `Entry.ofDescription?_description`: the entries that their own descriptions make again
- `find?_entries_iff`: the entries of a palette, in terms of the descriptions it is made of
- `ofDescriptions_descriptions_of_not`: without such categories a palette is described by its own
  descriptions
- `exists_find?_token_cons`: a palette that its own descriptions describe has, with a category that
  starts with `Token`, also the one with one more `Token` in front
- `ofDescriptions_descriptions_iff`: the palettes that their own descriptions describe
-/

namespace Tinct.Palette

variable {background : Option String} {styles : Descriptions}

/-! ## Single entries -/

/-- An entry is made again of what describes its style exactly if this style can be described. -/
theorem Entry.ofDescription?_description_iff {e : Entry} :
    Entry.ofDescription? e.category e.style.description = some e ↔ e.style.IsDescribable := by
  rw [Entry.ofDescription?_eq_some_iff, ← Style.ofDescription_description_iff]
  constructor
  · intro h
    exact (congrArg Entry.style h.2).symm
  · intro h
    -- the description is not empty, so it does make an entry
    exact ⟨Style.description_ne_empty (Style.ofDescription_description_iff.mp h), by rw [h]⟩

/-- The description of its style makes an entry again exactly if the color of the entry, where it
    has one, starts with a number sign and holds no blank.  All entries that descriptions make are
    of this kind. -/
theorem Entry.ofDescription?_description :
    (∀ e : Entry, Entry.ofDescription? e.category e.style.description = some e ↔
      ∀ color, e.style.color = some color →
        color.toList.head? = some '#' ∧ ∀ c ∈ color.toList, isBlank c = false) ∧
    ∀ (category : Category) (text : String) (e : Entry),
      Entry.ofDescription? category text = some e →
        Entry.ofDescription? e.category e.style.description = some e := by
  refine ⟨fun e => ofDescription?_description_iff.trans Style.isDescribable_iff, ?_⟩
  intro category text e h
  obtain ⟨-, rfl⟩ := Entry.ofDescription?_eq_some_iff.mp h
  exact ofDescription?_description_iff.mpr (Style.isDescribable_ofDescription text)

/-- The last color of a description makes its entry again.  A color with a blank of any kind in it
    does not, and neither does one that is spelled like another directive, or empty. -/
theorem Entry.ofDescription?_description_of_colors :
    let tag : Category := .ofKey "Name.Tag"
    (Entry.ofDescription? tag "#111 bold border:#222 #333" = some ⟨tag, ⟨some "#333", true⟩⟩ ∧
      Entry.ofDescription? tag "#333 bold" = some ⟨tag, ⟨some "#333", true⟩⟩) ∧
    ∀ color ∈ ["#1\u20281", "bold", ""], Entry.ofDescription? tag
      (Style.mk (some color) true).description ≠ some ⟨tag, ⟨some color, true⟩⟩ := by
  intro tag
  obtain ⟨hagain, hmade⟩ := Entry.ofDescription?_description
  have hentry : Entry.ofDescription? tag "#111 bold border:#222 #333" =
      some ⟨tag, ⟨some "#333", true⟩⟩ := by decide
  refine ⟨⟨hentry, hmade tag _ _ hentry⟩, fun color hcolor hsame => ?_⟩
  -- the color would be one word that starts with the sign of colors
  obtain ⟨hhead, hblank⟩ := (hagain ⟨tag, ⟨some color, true⟩⟩).mp hsame color rfl
  simp only [List.mem_cons, List.not_mem_nil, or_false] at hcolor
  rcases hcolor with rfl | rfl | rfl
  · exact absurd (hblank '\u2028' (by decide)) (by decide)
  · exact absurd hhead (by decide)
  · exact absurd hhead (by decide)

/-! ## Entries and their descriptions -/

private theorem isPlain_of_find? (hstyles : ∀ c ∈ styles.keys, c.IsPlain) {c : Category}
    {text : String} (h : styles.find? c = some text) : c.IsPlain :=
  hstyles c (SortedMap.mem_keys_iff.mpr ⟨text, h⟩)

/-- The entries of a palette belong to the descriptions that are not empty. -/
theorem find?_entries_iff (hstyles : ∀ c ∈ styles.keys, c.IsPlain) {key : String} {e : Entry} :
    (ofDescriptions background styles).entries.find? key = some e ↔
      ∃ c text, styles.find? c = some text ∧ text ≠ "" ∧ c.key = key ∧
        e = ⟨c, .ofDescription text⟩ := by
  simp only [find?_entries_eq_some_iff, prevails_iff hstyles, and_assoc]

/-- What a palette describes is the style of an entry, under what its key is read as. -/
theorem exists_entry_of_descriptions {p : Palette} {c : Category} {text : String}
    (h : p.descriptions.find? c = some text) :
    ∃ key e, p.entries.find? key = some e ∧ Category.ofKey key = c ∧
      e.style.description = text := by
  rw [descriptions, SortedMap.find?_ofList] at h
  have hmem := List.mem_reverse.mp (SortedMap.mem_of_lookup h)
  obtain ⟨⟨key, e⟩, hentry, hdescribed⟩ := List.mem_map.mp hmem
  obtain ⟨hkey, htext⟩ := Prod.mk.inj hdescribed
  exact ⟨key, e, SortedMap.find?_eq_some_iff.mpr hentry, hkey, htext⟩

/-- A palette describes plain categories only. -/
theorem isPlain_of_mem_descriptions (p : Palette) : ∀ c ∈ p.descriptions.keys, c.IsPlain := by
  intro c hc
  obtain ⟨text, htext⟩ := SortedMap.mem_keys_iff.mp hc
  obtain ⟨key, -, -, rfl, -⟩ := exists_entry_of_descriptions htext
  exact Category.isPlain_ofKey key

/-- The category that is read from a key is described. -/
theorem exists_descriptions_of_entry {p : Palette} {key : String} {e : Entry}
    (h : p.entries.find? key = some e) :
    ∃ text, p.descriptions.find? (Category.ofKey key) = some text := by
  have hmem : (Category.ofKey key, e.style.description) ∈
      p.entries.entries.map fun x => (Category.ofKey x.1, x.2.style.description) :=
    List.mem_map.mpr ⟨(key, e), SortedMap.find?_eq_some_iff.mp h, rfl⟩
  rw [descriptions, SortedMap.find?_ofList]
  exact SortedMap.exists_lookup_of_mem (List.mem_reverse.mpr hmem)

/-! ## Palettes without a leading `Token` -/

/-- Some category that starts with `Token` has a description that is not empty. -/
def DescribesToken (styles : Descriptions) : Prop :=
  ∃ c text, styles.find? c = some text ∧ text ≠ "" ∧ c.segments.head? = some "Token"

/-- What a palette describes, it has an entry for, if no key is read as another category. -/
private theorem find?_of_find?_again (hstyles : ∀ c ∈ styles.keys, c.IsPlain)
    (htoken : ¬ DescribesToken styles) {key : String} {e : Entry}
    (h : (ofDescriptions background
      (ofDescriptions background styles).descriptions).entries.find? key = some e) :
    (ofDescriptions background styles).entries.find? key = some e := by
  obtain ⟨c, text, htext, -, rfl, rfl⟩ :=
    (find?_entries_iff (isPlain_of_mem_descriptions _)).mp h
  obtain ⟨ownKey, own, hown, hread, hdescription⟩ := exists_entry_of_descriptions htext
  obtain ⟨d, ownText, hd, hne, rfl, rfl⟩ := (find?_entries_iff hstyles).mp hown
  -- the key of the entry is read as its own category
  have hhead : d.segments.head? ≠ some "Token" := fun h => htoken ⟨d, ownText, hd, hne, h⟩
  rw [Category.ofKey_key (isPlain_of_find? hstyles hd) hhead] at hread
  subst hread
  -- so it is described by itself, and this description is read as the same style
  have hstyle : Style.ofDescription text = Style.ofDescription ownText := by
    rw [← hdescription]
    exact Style.ofDescription_description (Style.isDescribable_ofDescription ownText)
  rw [hstyle]
  exact hown

/-- Without a leading `Token` in a described category, a palette is described by its own
    descriptions. -/
theorem ofDescriptions_descriptions_of_not (hstyles : ∀ c ∈ styles.keys, c.IsPlain)
    (htoken : ¬ DescribesToken styles) :
    ofDescriptions background (ofDescriptions background styles).descriptions =
      ofDescriptions background styles := by
  have hentries : (ofDescriptions background
      (ofDescriptions background styles).descriptions).entries =
        (ofDescriptions background styles).entries := by
    refine SortedMap.eq_of_find?_eq fun key => Option.ext fun e => ?_
    refine ⟨find?_of_find?_again hstyles htoken, fun h => ?_⟩
    -- the entry is described again, and what is made of this is the entry
    obtain ⟨text, htext⟩ := exists_descriptions_of_entry h
    obtain ⟨d, ownText, hd, hne, rfl, -⟩ := (find?_entries_iff hstyles).mp h
    have hhead : d.segments.head? ≠ some "Token" := fun h => htoken ⟨d, ownText, hd, hne, h⟩
    rw [Category.ofKey_key (isPlain_of_find? hstyles hd) hhead] at htext
    -- a style is never described by the empty text, which would make no entry
    have hwritten : text ≠ "" := by
      obtain ⟨_, own, hown, -, rfl⟩ := exists_entry_of_descriptions htext
      obtain ⟨_, made, -, -, -, rfl⟩ := (find?_entries_iff hstyles).mp hown
      exact Style.description_ne_empty (Style.isDescribable_ofDescription made)
    have hagain : (ofDescriptions background
        (ofDescriptions background styles).descriptions).entries.find? d.key =
          some ⟨d, .ofDescription text⟩ :=
      (find?_entries_iff (isPlain_of_mem_descriptions _)).mpr ⟨d, text, htext, hwritten, rfl, rfl⟩
    rw [hagain, ← find?_of_find?_again hstyles htoken hagain]
    exact h
  exact congrArg (Palette.mk background) hentries

/-! ## Palettes with a leading `Token` -/

/-- In a palette that its own descriptions describe, an entry of a category that starts with
    `Token` can only come from the category with one more `Token` in front. -/
theorem exists_find?_token_cons (hstyles : ∀ c ∈ styles.keys, c.IsPlain)
    (hsame : ofDescriptions background (ofDescriptions background styles).descriptions =
      ofDescriptions background styles) {c : Category} {text : String}
    (hc : styles.find? c = some text) (hne : text ≠ "")
    (hhead : c.segments.head? = some "Token") :
    ∃ more, styles.find? ⟨"Token" :: c.segments⟩ = some more ∧ more ≠ "" := by
  have hentry : (ofDescriptions background styles).entries.find? c.key =
      some ⟨c, .ofDescription text⟩ :=
    (find?_entries_iff hstyles).mpr ⟨c, text, hc, hne, rfl, rfl⟩
  rw [← hsame] at hentry
  obtain ⟨again, described, hdescribed, -, hkey, -⟩ :=
    (find?_entries_iff (isPlain_of_mem_descriptions _)).mp hentry
  -- the description that made the entry again is that of another entry, which the styles describe
  obtain ⟨ownKey, own, hown, hread, -⟩ := exists_entry_of_descriptions hdescribed
  obtain ⟨d, more, hd, hmore, rfl, -⟩ := (find?_entries_iff hstyles).mp hown
  have hplain := isPlain_of_find? hstyles hd
  -- the key is read as `c`, since no other plain category has the key of `c`
  have hagain : again.IsPlain := hread ▸ Category.isPlain_ofKey d.key
  obtain rfl : again = c := (Category.key_inj hagain (isPlain_of_find? hstyles hc)).mp hkey
  by_cases hd_head : d.segments.head? = some "Token"
  · obtain ⟨segments⟩ := d
    obtain ⟨rest, rfl⟩ : ∃ rest, segments = "Token" :: rest := List.head?_eq_some_iff.mp hd_head
    rw [Category.ofKey_key_token hplain] at hread
    subst hread
    exact ⟨more, hd, hmore⟩
  · -- otherwise the key would be read as `d`, which does not start with `Token`
    rw [Category.ofKey_key hplain hd_head] at hread
    subst hread
    exact absurd hhead hd_head

/-- Then there would be longer and longer categories. -/
private theorem exists_describesToken_of_le (hstyles : ∀ c ∈ styles.keys, c.IsPlain)
    (hsame : ofDescriptions background (ofDescriptions background styles).descriptions =
      ofDescriptions background styles) (htoken : DescribesToken styles) (n : Nat) :
    ∃ c text, styles.find? c = some text ∧ text ≠ "" ∧ c.segments.head? = some "Token" ∧
      n ≤ c.depth := by
  induction n with
  | zero =>
    obtain ⟨c, text, hc, hne, hhead⟩ := htoken
    exact ⟨c, text, hc, hne, hhead, Nat.zero_le _⟩
  | succ n ih =>
    obtain ⟨c, text, hc, hne, hhead, hle⟩ := ih
    obtain ⟨more, hmore, hmore_ne⟩ := exists_find?_token_cons hstyles hsame hc hne hhead
    exact ⟨_, more, hmore, hmore_ne, rfl, Nat.succ_le_succ hle⟩

/-- If descriptions give the palette back, none is of a category that starts with `Token`. -/
theorem not_describesToken_of_eq (hstyles : ∀ c ∈ styles.keys, c.IsPlain)
    (hsame : ofDescriptions background (ofDescriptions background styles).descriptions =
      ofDescriptions background styles) : ¬ DescribesToken styles := by
  intro htoken
  -- no category of the descriptions has more segments than all of them together
  let all := (styles.keys.map Category.segments).flatten
  obtain ⟨c, text, hc, -, -, hle⟩ :=
    exists_describesToken_of_le hstyles hsame htoken (all.length + 1)
  have hmem : c ∈ styles.keys := SortedMap.mem_keys_iff.mpr ⟨text, hc⟩
  have hsub : c.segments.Sublist all :=
    List.sublist_flatten_of_mem (List.mem_map.mpr ⟨c, hmem, rfl⟩)
  have hdepth : c.depth ≤ all.length := hsub.length_le
  omega

/-- The palette of descriptions, whose categories are read from keys, is described by its own
    descriptions exactly if no category with a description that is not empty starts with
    `Token`. -/
theorem ofDescriptions_descriptions_iff (background : Option String) (styles : Descriptions)
    (hstyles : ∀ c ∈ styles.keys, ∃ key, c = .ofKey key) :
    ofDescriptions (ofDescriptions background styles).background
        (ofDescriptions background styles).descriptions = ofDescriptions background styles ↔
      ∀ c text, styles.find? c = some text → text ≠ "" →
        c.segments.head? ≠ some "Token" := by
  -- categories that are read from keys are plain
  have hplain : ∀ c ∈ styles.keys, c.IsPlain := by
    intro c hc
    obtain ⟨key, rfl⟩ := hstyles c hc
    exact Category.isPlain_ofKey key
  constructor
  · intro hsame c text hc hne hhead
    exact not_describesToken_of_eq hplain hsame ⟨c, text, hc, hne, hhead⟩
  · intro hhead
    refine ofDescriptions_descriptions_of_not hplain fun htoken => ?_
    obtain ⟨c, text, hc, hne, htoken⟩ := htoken
    exact hhead c text hc hne htoken

/-- The entry of `Token.Name`, which is written as `Token.Token.Name`, moves up to `Name`; an empty
    description of this category does no harm. -/
theorem ofDescriptions_descriptions_of_token :
    let moved : Descriptions :=
      .ofList [(.ofKey "Name", "#111"), (.ofKey "Token.Token.Name", "bold")]
    let kept : Descriptions := .ofList [(.ofKey "Name", "#111"), (.ofKey "Token.Token.Name", "")]
    (ofDescriptions none (ofDescriptions none moved).descriptions ≠ ofDescriptions none moved) ∧
      ofDescriptions none (ofDescriptions none kept).descriptions = ofDescriptions none kept := by
  intro moved kept
  have hmoved : ∀ c ∈ moved.keys, ∃ key, c = .ofKey key := by
    intro c hc
    have hkeys : moved.keys = [.ofKey "Name", .ofKey "Token.Token.Name"] := by decide
    rw [hkeys] at hc
    rcases List.mem_pair.mp hc with rfl | rfl
    · exact ⟨_, rfl⟩
    · exact ⟨_, rfl⟩
  have hkept : ∀ c ∈ kept.keys, ∃ key, c = .ofKey key := hmoved
  constructor
  · intro hsame
    refine (ofDescriptions_descriptions_iff none moved hmoved).mp hsame (.ofKey "Token.Token.Name")
      "bold" ?_ ?_ ?_
    · decide
    · decide
    · decide
  · refine (ofDescriptions_descriptions_iff none kept hkept).mpr fun c text hc hne => ?_
    have hentry := SortedMap.find?_eq_some_iff.mp hc
    have hentries : kept.entries = [(.ofKey "Name", "#111"), (.ofKey "Token.Token.Name", "")] := by
      decide
    rw [hentries] at hentry
    rcases List.mem_pair.mp hentry with h | h
    · obtain ⟨rfl, rfl⟩ := Prod.mk.inj h
      decide
    · exact absurd (Prod.mk.inj h).2 hne

end Tinct.Palette
