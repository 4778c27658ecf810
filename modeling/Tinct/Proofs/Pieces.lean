import Tinct.Text.Blank

/-!
# Pieces of a text between separators

Keys are cut at dots and descriptions at blanks.  No piece holds a separator, so a piece that is cut
again stays whole, and a separator between two texts keeps their pieces apart.

## Key results

- `eq_false_of_mem_splitOnP`: no piece holds a separator
- `isWord_of_mem_words`, `words_of_isWord`: the words of a text are words, and a word is its only
  word
- `words_append_blank`: the words on both sides of a blank
-/

namespace Tinct

/-- No piece holds an element at which the list is split. -/
theorem eq_false_of_mem_splitOnP {α : Type} {p : α → Bool} {l piece : List α} {x : α}
    (h : piece ∈ l.splitOnP p) (hx : x ∈ piece) : p x = false := by
  induction l generalizing piece with
  | nil => simp_all
  | cons a l ih =>
    obtain ⟨first, others, hpieces⟩ := List.exists_cons_of_ne_nil (List.splitOnP_ne_nil p l)
    rw [List.splitOnP_cons_eq_if_modifyHead, hpieces] at h
    rw [hpieces] at ih
    by_cases ha : p a = true
    · rw [if_pos ha] at h
      rcases List.mem_cons.mp h with rfl | hmem
      · cases hx
      · exact ih hmem hx
    · -- the element continues the first piece of the rest
      rw [if_neg ha, List.modifyHead_cons] at h
      rcases List.mem_cons.mp h with rfl | hmem
      · rcases List.mem_cons.mp hx with rfl | hfirst
        · exact Bool.eq_false_iff.mpr ha
        · exact ih List.mem_cons_self hfirst
      · exact ih (List.mem_cons_of_mem _ hmem) hx

/-! ## Words -/

/-- A text that can be a word: it is not empty and holds no blank. -/
structure IsWord (word : String) : Prop where
  ne_empty : word ≠ ""
  no_blank : ∀ c ∈ word.toList, isBlank c = false

/-- What a text is split into at its spaces are words. -/
theorem isWord_of_mem_words {text word : String} (h : word ∈ words text) : IsWord word := by
  obtain ⟨piece, hpiece, rfl⟩ := List.mem_map.mp h
  obtain ⟨hsplit, hne⟩ := List.mem_filter.mp hpiece
  constructor
  · intro hempty
    rw [← String.toList_eq_nil_iff, String.toList_ofList] at hempty
    simp [hempty] at hne
  · rw [String.toList_ofList]
    exact fun c hc => eq_false_of_mem_splitOnP hsplit hc

/-- A word is its own only word. -/
theorem words_of_isWord {word : String} (h : IsWord word) : words word = [word] := by
  have hne : word.toList ≠ [] := mt String.toList_eq_nil_iff.mp h.ne_empty
  simp [words, List.splitOnP_eq_singleton h.no_blank, hne]

/-- A blank ends the words before it. -/
theorem words_append_blank (front back : List Char) {c : Char} (hc : isBlank c = true) :
    words (String.ofList (front ++ c :: back)) =
      words (String.ofList front) ++ words (String.ofList back) := by
  simp only [words, String.toList_ofList, List.splitOnP_append_cons front back hc,
    List.filter_append, List.map_append]

end Tinct
