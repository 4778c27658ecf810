import Tinct.Proofs.Pieces
import Tinct.Theme.Directive

/-!
# What a style description says

Only colors and the word `bold` have an effect on a style, so the style of a description can be
read off its words without folding over them.

## Key results

- `Style.apply_ofWord`: what one word does to a style
- `Style.ofDescription_eq`: the color of a description is its last color word, and it is bold if
  one of its words is `bold`
- `Style.ofDescription_description_iff`: the styles that are read back from their own descriptions
  are those whose color is a color word
-/

namespace Tinct

/-- Whether a word is a color, which the number sign at its start says. -/
def isColorWord (word : String) : Bool := word.toList.head? = some '#'

/-- The last word of a text that is a color. -/
def colorWord? (text : String) : Option String := ((words text).filter isColorWord).getLast?

/-- Whether `bold` is a word of a text. -/
def saysBold (text : String) : Bool := (words text).contains "bold"

/-- The empty text has no words. -/
theorem words_empty : words "" = [] := rfl

/-- There is a color word if some word is a color. -/
theorem colorWord?_isSome_iff {text : String} :
    (colorWord? text).isSome ↔ ∃ word ∈ words text, isColorWord word := by
  simp [colorWord?]

namespace Style

/-- Words that are not fixed words have no effect. -/
private theorem apply_ofOtherWord (s : Style) (word : String) :
    s.apply (Directive.ofOtherWord word) = s := by
  unfold Directive.ofOtherWord
  split <;> rfl

/-- A color word replaces the color, and `bold` makes the style bold. -/
theorem apply_ofWord (s : Style) (word : String) :
    s.apply (Directive.ofWord word) =
      ⟨if isColorWord word then some word else s.color, s.bold || word == "bold"⟩ := by
  unfold Directive.ofWord isColorWord
  by_cases hcolor : word.toList.head? = some '#'
  · have hne : word ≠ "bold" := by
      intro h
      subst h
      exact absurd hcolor (by decide)
    simp [hcolor, hne, apply]
  · rw [if_neg hcolor, if_neg (by simpa using hcolor)]
    by_cases hbold : word = "bold"
    · subst hbold
      simp [apply]
    · have hbeq : (word == "bold") = false := by simpa using hbold
      rw [hbeq, Bool.or_false]
      -- none of the other words changes anything
      split
      · exact absurd rfl hbold
      all_goals first
        | rfl
        | exact apply_ofOtherWord s word

/-- The effect of words one after the other. -/
private theorem foldl_apply_ofWord (s : Style) (ws : List String) :
    (ws.map Directive.ofWord).foldl apply s =
      ⟨((ws.filter isColorWord).getLast?).or s.color, s.bold || ws.contains "bold"⟩ := by
  induction ws generalizing s with
  | nil => simp
  | cons word ws ih =>
    rw [List.map_cons, List.foldl_cons, apply_ofWord, ih, List.filter_cons, List.contains_cons]
    have hbold : ("bold" == word) = (word == "bold") := Bool.beq_comm
    rw [hbold, Bool.or_assoc]
    cases isColorWord word with
    | false => rfl
    | true =>
      -- the color stays unless a later word is a color, too
      rw [if_pos rfl, if_pos rfl, List.getLast?_cons]
      cases (ws.filter isColorWord).getLast? <;> rfl

/-- The style of a description has the last color word for its color, and is bold if `bold` is a
    word of the description. -/
theorem ofDescription_eq (text : String) :
    ofDescription text = ⟨colorWord? text, saysBold text⟩ := by
  have h := foldl_apply_ofWord {} (words text)
  rw [Option.or_none, Bool.false_or] at h
  exact h

/-! ## Describing a style again -/

/-- The color of the style, if it has one, is a single word that is a color. -/
def IsDescribable (s : Style) : Prop :=
  ∀ color, s.color = some color → IsWord color ∧ isColorWord color = true

/-- What a description says can be described. -/
theorem isDescribable_ofDescription (text : String) : (ofDescription text).IsDescribable := by
  intro color hcolor
  rw [ofDescription_eq] at hcolor
  obtain ⟨hmem, hword⟩ := List.mem_filter.mp (List.mem_of_getLast? hcolor)
  exact ⟨isWord_of_mem_words hmem, hword⟩

/-- A color and a weight are two words. -/
private theorem words_color_bold {color : String} (h : IsWord color) :
    words (color ++ " bold") = [color, "bold"] := by
  have hsplit : color ++ " bold" = String.ofList (color.toList ++ ' ' :: "bold".toList) := by
    rw [← String.toList_inj]
    simp
  rw [hsplit, words_append_blank _ _ (by decide), String.ofList_toList, words_of_isWord h]
  rfl

/-- The description of a style describes this style. -/
theorem ofDescription_description {s : Style} (h : s.IsDescribable) :
    ofDescription s.description = s := by
  obtain ⟨color, bold⟩ := s
  rw [ofDescription_eq]
  cases color with
  | none =>
    -- `bold` and `nobold` are fixed texts
    cases bold <;> rfl
  | some color =>
    obtain ⟨hword, hcolor⟩ := h color rfl
    have hne : color ≠ "bold" := by
      intro heq
      subst heq
      exact absurd hcolor (by decide)
    cases bold with
    | true =>
      have hbold : isColorWord "bold" = false := rfl
      simp [description, colorWord?, saysBold, words_color_bold hword, hcolor, hbold]
    | false =>
      simp [description, colorWord?, saysBold, words_of_isWord hword, hcolor, Ne.symm hne]

/-- Only such styles are described by their own descriptions, since a description gives no other
    ones. -/
theorem ofDescription_description_iff {s : Style} :
    ofDescription s.description = s ↔ s.IsDescribable := by
  constructor
  · intro h
    rw [← h]
    exact isDescribable_ofDescription s.description
  · exact ofDescription_description

/-- A style can be described if its color is one word and starts with the sign of colors. -/
theorem isDescribable_iff {s : Style} :
    s.IsDescribable ↔ ∀ color, s.color = some color →
      color.toList.head? = some '#' ∧ ∀ c ∈ color.toList, isBlank c = false := by
  refine forall_congr' fun color => imp_congr_right fun _ => ?_
  rw [isColorWord, decide_eq_true_iff]
  constructor
  · intro h
    exact ⟨h.2, h.1.no_blank⟩
  · intro h
    -- a text with a first character is not empty
    have hne : color ≠ "" := by
      rintro rfl
      cases h.1
    exact ⟨⟨hne, h.2⟩, h.1⟩

/-- A style is never described by the empty text. -/
theorem description_ne_empty {s : Style} (h : s.IsDescribable) : s.description ≠ "" := by
  intro hempty
  have hread := ofDescription_description h
  rw [hempty] at hread
  -- only `nobold` describes the style without words, and it is not empty
  subst hread
  exact absurd hempty (by decide)

end Style

end Tinct
