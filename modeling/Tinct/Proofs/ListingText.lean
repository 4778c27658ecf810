import Tinct.Proofs.Events

/-!
# The text of a listing

A listing of fragments holds their text: its lines, joined by line feeds, are the text up to one
final line feed, there is a line for every line feed and one for what follows the last of them,
and no token is empty or contains a line feed.

## Key results

- `intercalate_cut`: the cut of events, joined by line feeds, is their text
- `length_cut`: the cut has one line more than the text has line feeds
- `ofFragments_holds`: the listing of any fragments holds their text
-/

namespace Tinct

/-- A token that stays on its line and shows there: its text is not empty and has no line feed. -/
structure Token.IsSolid (t : Token) : Prop where
  content_ne : t.content ≠ ""
  no_lineFeed : '\n' ∉ t.content.toList

/-- The listing holds a text: solid tokens, the text up to one final line feed, and as many lines
    as the text has, where a final line feed does not open another line. -/
structure Listing.Holds (l : Listing) (text : String) : Prop where
  solid : ∀ line ∈ l.lines, ∀ t ∈ line, t.IsSolid
  source_eq : l.source = String.ofList (withoutFinal '\n' text.toList)
  length_eq : l.lines.length = text.toList.count '\n' +
    if text ≠ "" ∧ text.toList.getLast? ≠ some '\n' then 1 else 0

namespace Event

/-- The characters of the event. -/
def chars : Event → List Char
  | token t => t.content.toList
  | lineBreak => ['\n']

/-- All tokens among the events are solid. -/
def AllSolid (es : List Event) : Prop := ∀ t, token t ∈ es → t.IsSolid

/-! ## The events of a text -/

/-- The events of a text are the text. -/
theorem flatMap_chars_ofChars (category : Category) (text : List Char) :
    (ofChars category text).flatMap chars = text := by
  fun_induction ofChars category text with
  | case1 => rfl
  | case2 rest ih => rw [List.flatMap_cons, ih]; rfl
  | case3 c rest hc ih =>
    rw [List.flatMap_cons, ih, chars, String.toList_ofList, List.cons_append,
      List.takeWhile_append_dropWhile]

/-- The tokens of a text are solid. -/
theorem allSolid_ofChars (category : Category) (text : List Char) :
    AllSolid (ofChars category text) := by
  intro t ht
  fun_induction ofChars category text with
  | case1 => simp at ht
  | case2 rest ih => exact ih (by simpa using ht)
  | case3 c rest hc ih =>
    rcases List.mem_cons.mp ht with h | h
    · obtain rfl := Event.token.inj h
      refine ⟨by simp [← String.toList_inj], ?_⟩
      rw [String.toList_ofList, List.mem_cons, not_or]
      exact ⟨Ne.symm hc, lineFeed_not_mem_takeWhile rest⟩
    · exact ih h

/-- The events of fragments are the text of the fragments. -/
theorem flatMap_chars_ofFragments (fragments : List Fragment) :
    (ofFragments fragments).flatMap chars = (String.join (fragments.map (·.text))).toList := by
  rw [ofFragments, List.flatMap_assoc, String.toList_join, List.flatMap_map]
  exact congrArg (List.flatMap · fragments)
    (funext fun f => flatMap_chars_ofChars f.category f.text.toList)

/-- The tokens of the events of fragments are solid. -/
theorem allSolid_ofFragments (fragments : List Fragment) : AllSolid (ofFragments fragments) := by
  intro t ht
  obtain ⟨f, -, hf⟩ := List.mem_flatMap.mp ht
  exact allSolid_ofChars f.category f.text.toList t hf

/-! ## The text of a cut -/

/-- The lines of a cut, joined by line feeds, are the text of the events. -/
theorem intercalate_cut (es : List Event) :
    ['\n'].intercalate ((cut es).map (·.flatMap (·.content.toList))) = es.flatMap chars := by
  induction es with
  | nil => simp
  | cons e es ih =>
    obtain ⟨head, tail, h⟩ := exists_cut_eq_cons es
    rw [List.flatMap_cons, ← ih, h]
    -- a token continues the first line of the rest, the end of a line opens one before it
    cases e with
    | token t =>
      rw [cut_token_cons, h]
      cases tail <;> simp [chars]
    | lineBreak =>
      rw [cut_lineBreak_cons, h]
      simp [chars]

/-- There is one line more than ends of lines. -/
theorem length_cut {es : List Event} (hsolid : AllSolid es) :
    (cut es).length = (es.flatMap chars).count '\n' + 1 := by
  induction es with
  | nil => rfl
  | cons e es ih =>
    have hrest := ih fun t ht => hsolid t (List.mem_cons_of_mem _ ht)
    cases e with
    | token t =>
      have hcount : t.content.toList.count '\n' = 0 :=
        List.count_eq_zero.mpr (hsolid t List.mem_cons_self).no_lineFeed
      simp [hrest, chars, hcount]
    | lineBreak =>
      simp [hrest, chars]

/-- A token on a line of a cut is a token of the events. -/
theorem token_mem_of_mem_cut {es : List Event} {line : Line} {t : Token} (hline : line ∈ cut es)
    (ht : t ∈ line) : token t ∈ es := by
  induction es generalizing line with
  | nil => simp_all
  | cons e es ih =>
    obtain ⟨head, tail, h⟩ := exists_cut_eq_cons es
    cases e with
    -- a token joins the first line of the rest, and the others stay
    | token u =>
      rw [cut_token_cons, h, List.modifyHead_cons] at hline
      rcases List.mem_cons.mp hline with rfl | htail
      · rcases List.mem_cons.mp ht with rfl | hhead
        · exact List.mem_cons_self
        · exact List.mem_cons_of_mem _ (ih (h ▸ List.mem_cons_self) hhead)
      · exact List.mem_cons_of_mem _ (ih (h ▸ List.mem_cons_of_mem _ htail) ht)
    -- the end of a line opens one without tokens
    | lineBreak =>
      rw [cut_lineBreak_cons] at hline
      rcases List.mem_cons.mp hline with rfl | hrest
      · simp at ht
      · exact List.mem_cons_of_mem _ (ih hrest ht)

/-! ## The lines of a stream -/

/-- The text of solid events ends with a line feed if the last event is the end of a line. -/
theorem getLast?_flatMap_chars_iff {es : List Event} (hsolid : AllSolid es) :
    (es.flatMap chars).getLast? = some '\n' ↔ es.getLast? = some lineBreak := by
  rcases List.eq_nil_or_concat es with rfl | ⟨before, last, rfl⟩
  · simp
  rw [List.concat_eq_append, List.flatMap_append, List.flatMap_singleton]
  cases last with
  | lineBreak => simp [chars]
  | token t =>
    obtain ⟨hne, hno⟩ := hsolid t (by simp)
    have hlast : t.content.toList.getLast? ≠ some '\n' := fun h => hno (List.mem_of_getLast? h)
    have hsome : t.content.toList.getLast?.isSome := by simpa using hne
    rw [chars, List.getLast?_append, Option.or_of_isSome hsome]
    simpa using hlast

/-- Leaving out a final end of a line leaves out a final line feed of the text. -/
theorem flatMap_chars_withoutFinal {es : List Event} (hsolid : AllSolid es) :
    (withoutFinal lineBreak es).flatMap chars = withoutFinal '\n' (es.flatMap chars) := by
  by_cases hlast : es.getLast? = some lineBreak
  · obtain ⟨before, rfl⟩ := List.getLast?_eq_some_iff.mp hlast
    rw [List.flatMap_append, List.flatMap_singleton, withoutFinal_concat_self, chars,
      withoutFinal_concat_self]
  · rw [withoutFinal_of_getLast?_ne hlast,
      withoutFinal_of_getLast?_ne (mt (getLast?_flatMap_chars_iff hsolid).mp hlast)]

/-- Solid events that are not empty have a text that is not empty. -/
theorem flatMap_chars_ne_nil {es : List Event} (hsolid : AllSolid es) (hne : es ≠ []) :
    es.flatMap chars ≠ [] := by
  obtain ⟨e, rest, rfl⟩ := List.exists_cons_of_ne_nil hne
  cases e with
  | token t =>
    have := (hsolid t List.mem_cons_self).content_ne
    simp [chars, this]
  | lineBreak => simp [chars]

/-- The lines of solid events hold the text of the events. -/
theorem lines_holds {es : List Event} (hsolid : AllSolid es) :
    (Listing.mk (lines es)).Holds (String.ofList (es.flatMap chars)) := by
  by_cases hes : es = []
  · subst hes
    exact ⟨by simp [lines], rfl, rfl⟩
  · have hkept : AllSolid (withoutFinal lineBreak es) :=
      fun t ht => hsolid t (mem_of_mem_withoutFinal ht)
    have hlines := lines_of_ne_nil hes
    refine ⟨?_, ?_, ?_⟩
    · -- the tokens are those of the events
      intro line hline t ht
      exact hkept t (token_mem_of_mem_cut (hlines ▸ hline) ht)
    · -- the lines, joined by line feeds, are the text but for a final one
      rw [← String.toList_inj, Listing.source, String.toList_intercalate]
      simp only [String.toList_ofList]
      rw [← flatMap_chars_withoutFinal hsolid, ← intercalate_cut, ← hlines, List.map_map]
      exact congrArg _ (List.map_congr_left fun line _ => by
        rw [Function.comp_apply, Line.text, String.toList_join, List.flatMap_map])
    · -- the final line feed that is left out is one that the text counts
      have htext := flatMap_chars_ne_nil hsolid hes
      have hcount := count_withoutFinal_add_one '\n' htext
      rw [← flatMap_chars_withoutFinal hsolid, ← length_cut hkept, ← hlines] at hcount
      rw [hcount, String.toList_ofList]
      by_cases hlast : (es.flatMap chars).getLast? = some '\n'
      · simp [hlast]
      · simp [hlast, htext]

end Event

/-- The listing of any fragments holds the text of the fragments. -/
theorem Listing.ofFragments_holds (fragments : List Fragment) :
    (Listing.ofFragments fragments).Holds (String.join (fragments.map (·.text))) := by
  have h := Event.lines_holds (Event.allSolid_ofFragments fragments)
  rw [Event.flatMap_chars_ofFragments, String.ofList_toList,
    ← Builder.finish_foldl_push] at h
  exact h

end Tinct
