import Mathlib.Logic.Relation
import Tinct.Proofs.StyleDescriptions

/-!
# Joining and editing style descriptions

A description is read word by word, so two descriptions with blanks between them describe what the
second one makes of the style of the first.  Most words have no effect at all, and it does not
matter where they stand, or whether they do.

## Key results

- `words_append_gap`: the words on both sides of a run of blanks
- `Style.ofDescription_append_gap`: the style of two descriptions that are joined
- `WordEdit.filter_isEffective`, `filter_isEffective_of_edits`: edits leave the words with an effect
- `Style.ofDescription_laws`: the laws of descriptions
-/

namespace Tinct

/-! ## Blanks between words -/

/-- A run of blanks, which separates words. -/
structure IsGap (gap : String) : Prop where
  ne_empty : gap ≠ ""
  blank : ∀ c ∈ gap.toList, isBlank c = true

/-- Blanks in front of a text do not change its words. -/
theorem words_blanks_append {blanks : List Char} (h : ∀ c ∈ blanks, isBlank c = true)
    (text : List Char) : words (String.ofList (blanks ++ text)) = words (String.ofList text) := by
  induction blanks with
  | nil => rfl
  | cons c blanks ih =>
    obtain ⟨hc, hblanks⟩ := List.forall_mem_cons.mp h
    have hfront := words_append_blank [] (blanks ++ text) hc
    rw [List.nil_append, String.ofList_nil, words_empty, List.nil_append] at hfront
    rw [List.cons_append, hfront, ih hblanks]

/-- However long the run of blanks between two texts is, their words are kept apart. -/
theorem words_append_gap (front back : String) {gap : String} (hgap : IsGap gap) :
    words (front ++ gap ++ back) = words front ++ words back := by
  -- the first blank of the gap separates the words, and the others lead the second text
  obtain ⟨c, blanks, hchars⟩ :=
    List.exists_cons_of_ne_nil (mt String.toList_eq_nil_iff.mp hgap.ne_empty)
  have hblank := hgap.blank
  rw [hchars, List.forall_mem_cons] at hblank
  have hsplit : front ++ gap ++ back =
      String.ofList (front.toList ++ c :: (blanks ++ back.toList)) := by
    rw [← String.toList_inj]
    simp [hchars]
  rw [hsplit, words_append_blank _ _ hblank.1, words_blanks_append hblank.2, String.ofList_toList,
    String.ofList_toList]

/-! ## Words without an effect -/

/-- Whether a word has an effect on styles: colors do, and so does `bold`. -/
def isEffective (word : String) : Bool := isColorWord word || word == "bold"

/-- The words are edited in one place: a word without an effect is put in, taken out or moved. -/
inductive WordEdit : List String → List String → Prop
  | insert (front back : List String) {word : String} : isEffective word = false →
      WordEdit (front ++ back) (front ++ word :: back)
  | delete (front back : List String) {word : String} : isEffective word = false →
      WordEdit (front ++ word :: back) (front ++ back)
  | moveBack (front passed back : List String) {word : String} : isEffective word = false →
      WordEdit (front ++ word :: (passed ++ back)) (front ++ (passed ++ word :: back))
  | moveAhead (front passed back : List String) {word : String} : isEffective word = false →
      WordEdit (front ++ (passed ++ word :: back)) (front ++ word :: (passed ++ back))

/-- An edit leaves the words with an effect as they are. -/
theorem WordEdit.filter_isEffective {ws ws' : List String} (h : WordEdit ws ws') :
    ws'.filter isEffective = ws.filter isEffective := by
  cases h with
  -- the word that is put in or taken out does not pass the filter
  | insert front back hidle | delete front back hidle => simp [hidle]
  -- nor does one that is moved, at either place
  | moveBack front passed back hidle | moveAhead front passed back hidle => simp [hidle]

/-- So do any number of edits. -/
theorem filter_isEffective_of_edits {ws ws' : List String}
    (h : Relation.ReflTransGen WordEdit ws ws') :
    ws'.filter isEffective = ws.filter isEffective := by
  induction h with
  | refl => rfl
  | tail _ hedit ih => rw [hedit.filter_isEffective, ih]

namespace Style

/-- The words that leave every style as it is are those without an effect. -/
theorem apply_ofWord_eq_self_iff {word : String} :
    (∀ s : Style, s.apply (.ofWord word) = s) ↔ isEffective word = false := by
  simp only [apply_ofWord, isEffective, Bool.or_eq_false_iff]
  constructor
  · intro h
    -- a style without a color that is not bold shows every effect
    have hplain := h {}
    simpa using hplain
  · intro h s
    simp [h.1, h.2]

/-- Only the words with an effect count. -/
theorem ofDescription_congr {text other : String}
    (h : (words other).filter isEffective = (words text).filter isEffective) :
    ofDescription other = ofDescription text := by
  -- the colors and `bold` are found among these words
  have hcolor : ∀ ws : List String,
      ws.filter isColorWord = (ws.filter isEffective).filter isColorWord := by
    intro ws
    rw [List.filter_filter]
    refine List.filter_congr fun word _ => ?_
    cases hword : isColorWord word <;> simp [isEffective, hword]
  have hbold : ∀ ws : List String,
      ws.contains "bold" = (ws.filter isEffective).contains "bold" := by
    intro ws
    rw [Bool.eq_iff_iff]
    simp [List.mem_filter, isEffective]
  rw [ofDescription_eq, ofDescription_eq, colorWord?, colorWord?, saysBold, saysBold, hcolor, hbold,
    h, ← hcolor, ← hbold]

/-! ## Joining -/

/-- The color of two joined descriptions is that of the second one, if it has a color, and they are
    bold together if one of them is. -/
theorem ofDescription_append_gap (front back : String) {gap : String} (hgap : IsGap gap) :
    ofDescription (front ++ gap ++ back) =
      ⟨(ofDescription back).color.or (ofDescription front).color,
        (ofDescription front).bold || (ofDescription back).bold⟩ := by
  simp only [ofDescription_eq, colorWord?, saysBold, words_append_gap front back hgap,
    List.filter_append, List.getLast?_append, List.contains_append]

/-! ## Laws -/

/-- The style of a description has the last word that starts with a number sign for its color, and
    is bold if one of the words is `bold`.  So descriptions can be joined, with any run of blanks
    between them, and all other words, which are those without an effect on any style, can be put
    in, taken out and moved. -/
theorem ofDescription_laws :
    (∀ text, (ofDescription text).color =
        ((words text).filter fun word => word.toList.head? = some '#').getLast? ∧
      ((ofDescription text).bold = true ↔ "bold" ∈ words text)) ∧
    (∀ front gap back, IsGap gap → ofDescription (front ++ gap ++ back) =
      ⟨(ofDescription back).color.or (ofDescription front).color,
        (ofDescription front).bold || (ofDescription back).bold⟩) ∧
    (∀ word, isEffective word = false ↔ ∀ s : Style, s.apply (.ofWord word) = s) ∧
    ∀ text other, Relation.ReflTransGen WordEdit (words text) (words other) →
      ofDescription other = ofDescription text := by
  refine ⟨fun text => ?_, fun front gap back hgap => ofDescription_append_gap front back hgap,
    fun word => apply_ofWord_eq_self_iff.symm,
    fun text other hedits => ofDescription_congr (filter_isEffective_of_edits hedits)⟩
  rw [ofDescription_eq]
  exact ⟨rfl, List.contains_iff_mem⟩

/-- Colors behind `bg:` and `border:` do not count and can be moved, `nobold` does not take `bold`
    back, and unusual blanks separate words, too. -/
theorem ofDescription_laws_of_blanks :
    IsGap "\u2003\t" ∧
      ofDescription ("bold #111 bg:#222" ++ "\u2003\t" ++ "border:#333 nobold") =
        ⟨some "#111", true⟩ ∧
      Relation.ReflTransGen WordEdit (words "bg:#222 bold") (words " bold  nobold bg:#222") ∧
      ofDescription " bold  nobold bg:#222" = ofDescription "bg:#222 bold" := by
  obtain ⟨-, hjoined, -, hedited⟩ := ofDescription_laws
  have hgap : IsGap "\u2003\t" := ⟨by decide, List.all_eq_true.mp (by decide)⟩
  -- the first word is moved back, and another one put in behind `bold`
  have hedits : Relation.ReflTransGen WordEdit (words "bg:#222 bold")
      (words " bold  nobold bg:#222") := by
    have hmove : WordEdit ["bg:#222", "bold"] ["bold", "bg:#222"] :=
      .moveBack [] ["bold"] [] (by decide)
    have hinsert : WordEdit ["bold", "bg:#222"] ["bold", "nobold", "bg:#222"] :=
      .insert ["bold"] ["bg:#222"] (by decide)
    exact .tail (.single hmove) hinsert
  refine ⟨hgap, (hjoined _ _ _ hgap).trans (by decide), hedits, hedited _ _ hedits⟩

end Style

end Tinct
