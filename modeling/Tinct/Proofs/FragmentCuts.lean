import Mathlib.Data.List.DropRight
import Tinct.Proofs.ListingLaws

/-!
# Fragments cut in two

Lexers differ in how they cut one stretch of text of a category into fragments: one gives every
line feed as a fragment, another one a whole run of blanks.  A cut next to a line feed, or at an end
of the text, makes no difference to the listing.  Any other cut goes through a token: in the place
of this token there are then two, and nothing else changes.

## Key results

- `Event.ofChars_append`: the events of two texts, one behind the other
- `Event.lines_append_ofLine`: where tokens that follow each other stand in the lines
- `Listing.ofFragments_cut`: the listing of fragments of which one is cut in two
-/

namespace Tinct

/-- The cut between two parts of a text goes through a token: there is text on both sides of it, and
    no line feed next to it. -/
structure CutsToken (front back : String) : Prop where
  front_ne : front ≠ ""
  back_ne : back ≠ ""
  front_open : front.toList.getLast? ≠ some '\n'
  back_open : back.toList.head? ≠ some '\n'

instance (front back : String) : Decidable (CutsToken front back) :=
  decidable_of_iff (front ≠ "" ∧ back ≠ "" ∧ front.toList.getLast? ≠ some '\n' ∧
      back.toList.head? ≠ some '\n')
    ⟨fun h => ⟨h.1, h.2.1, h.2.2.1, h.2.2.2⟩, fun h => ⟨h.1, h.2, h.3, h.4⟩⟩

/-- Joining two pieces makes no difference to their tokens if one of them is empty. -/
theorem Line.ofPiece_append (category : Category) {front back : List Char}
    (h : front = [] ∨ back = []) :
    ofPiece category (front ++ back) = ofPiece category front ++ ofPiece category back := by
  rcases h with rfl | rfl
  · rfl
  · rw [List.append_nil]
    exact (List.append_nil _).symm

namespace Event

variable (category : Category)

/-! ## The events of two texts -/

/-- Behind a line feed the events are those that the text has on its own. -/
theorem ofChars_append_lineFeed (front back : List Char) :
    ofChars category (front ++ '\n' :: back) =
      ofChars category front ++ lineBreak :: ofChars category back := by
  fun_induction ofChars category front with
  | case1 => rw [List.nil_append, ofChars, if_pos rfl, List.nil_append]
  | case2 rest ih => rw [List.cons_append, ofChars, if_pos rfl, ih, List.cons_append]
  | case3 c rest hc ih =>
    have hpiece : '\n' ∉ c :: rest.takeWhile (· ≠ '\n') :=
      List.not_mem_cons_of_ne_of_not_mem (Ne.symm hc) (lineFeed_not_mem_takeWhile rest)
    -- a line feed comes next, in the text itself or behind it
    have hnext : (rest.dropWhile (· ≠ '\n') ++ '\n' :: back).head? = some '\n' := by
      rcases dropWhile_ne_lineFeed rest with hnil | hhead
      · rw [hnil]
        rfl
      · rw [List.head?_append, hhead]
        rfl
    have h := ofChars_piece_append category hpiece (.inr hnext)
    rw [ih, ← List.append_assoc, List.cons_append, List.takeWhile_append_dropWhile] at h
    exact h

/-- Behind a text that ends with a line feed, too. -/
theorem ofChars_append_of_closed {front : List Char}
    (h : front = [] ∨ front.getLast? = some '\n') (back : List Char) :
    ofChars category (front ++ back) = ofChars category front ++ ofChars category back := by
  rcases h with rfl | hlast
  · rw [ofChars, List.nil_append, List.nil_append]
  · -- the text is cut in front of its final line feed
    obtain ⟨before, rfl⟩ := List.getLast?_eq_some_iff.mp hlast
    rw [List.append_assoc, List.singleton_append, ofChars_append_lineFeed, ofChars_append_lineFeed,
      List.append_assoc, ofChars, List.singleton_append]

/-- What stands before the last piece of a line is nothing, or ends with a line feed. -/
theorem rdropWhile_ne_lineFeed (text : List Char) :
    text.rdropWhile (· ≠ '\n') = [] ∨ (text.rdropWhile (· ≠ '\n')).getLast? = some '\n' := by
  rw [List.rdropWhile, List.reverse_eq_nil_iff, List.getLast?_reverse]
  exact dropWhile_ne_lineFeed text.reverse

/-- The events of two texts, one behind the other: the last piece of the first text and the first
    piece of the second one are joined. -/
theorem ofChars_append (front back : List Char) :
    ofChars category (front ++ back) =
      ofChars category (front.rdropWhile (· ≠ '\n')) ++
        (ofLine (Line.ofPiece category
            (front.rtakeWhile (· ≠ '\n') ++ back.takeWhile (· ≠ '\n'))) ++
          ofChars category (back.dropWhile (· ≠ '\n'))) := by
  -- neither part of the joined piece has a line feed, and one comes next: so it is a whole piece
  have hpiece : '\n' ∉ front.rtakeWhile (· ≠ '\n') ++ back.takeWhile (· ≠ '\n') := by
    rw [List.mem_append, not_or]
    refine ⟨fun hmem => ?_, lineFeed_not_mem_takeWhile back⟩
    simpa using List.mem_rtakeWhile_imp hmem
  rw [← ofChars_piece_append category hpiece (dropWhile_ne_lineFeed back),
    ← ofChars_append_of_closed category (rdropWhile_ne_lineFeed front), List.append_assoc,
    List.takeWhile_append_dropWhile, ← List.append_assoc, List.rdropWhile_append_rtakeWhile]

/-- The events of a text, by its last piece. -/
theorem ofChars_eq_last (text : List Char) :
    ofChars category text =
      ofChars category (text.rdropWhile (· ≠ '\n')) ++
        ofLine (Line.ofPiece category (text.rtakeWhile (· ≠ '\n'))) := by
  have h := ofChars_append category text []
  rw [List.append_nil, List.takeWhile_nil, List.dropWhile_nil, List.append_nil, ofChars,
    List.append_nil] at h
  exact h

/-- The events of a text, by its first piece. -/
theorem ofChars_eq_first (text : List Char) :
    ofChars category text =
      ofLine (Line.ofPiece category (text.takeWhile (· ≠ '\n'))) ++
        ofChars category (text.dropWhile (· ≠ '\n')) := by
  have h := ofChars_append category [] text
  rw [List.rdropWhile_nil, List.rtakeWhile_nil, ofChars, List.nil_append, List.nil_append,
    List.nil_append] at h
  exact h

/-! ## Tokens in lines -/

/-- Tokens are never the end of a line that is left out, also where they are the last events. -/
theorem withoutFinal_append_ofLine (front : List Event) {line : Line} (hne : line ≠ [])
    (back : List Event) :
    withoutFinal lineBreak (front ++ (ofLine line ++ back)) =
      front ++ (ofLine line ++ withoutFinal lineBreak back) := by
  have hevents : ofLine line ≠ [] := by simpa [ofLine] using hne
  rw [withoutFinal_append _ _ (by simp [hevents])]
  -- without events behind them the tokens are the last ones
  by_cases hback : back = []
  · have hlast : (ofLine line).getLast? ≠ some lineBreak := by simp [ofLine]
    have hnil : withoutFinal lineBreak ([] : List Event) = [] := rfl
    rw [hback, hnil, List.append_nil, withoutFinal_of_getLast?_ne hlast]
  · rw [withoutFinal_append _ _ hback]

/-- Tokens that follow each other stand side by side on the line that is open before them. -/
theorem lines_append_ofLine {front : List Event} {above : List Line} {left line : Line}
    (h : cut front = above ++ [left]) (hne : line ≠ []) (back : List Event) :
    lines (front ++ (ofLine line ++ back)) =
      above ++ (cut (withoutFinal lineBreak back)).modifyHead (left ++ line ++ ·) := by
  have hline : cut (ofLine line) = [] ++ [line] := cut_ofLine line
  rw [lines_of_ne_nil (by simp [ofLine, hne]), withoutFinal_append_ofLine front hne,
    cut_append h, cut_append hline, List.nil_append, List.modifyHead_modifyHead]
  simp only [Function.comp_def, List.append_assoc]

/-- Whatever tokens stand between two streams of events, their place in the lines is the same. -/
theorem exists_lines_around (start tail : List Event) :
    ∃ above left right below, ∀ line : Line, line ≠ [] →
      lines (start ++ ofLine line) = above ++ [left ++ line] ∧
      lines (start ++ (ofLine line ++ tail)) = above ++ (left ++ line ++ right) :: below := by
  obtain ⟨above, left, hopen⟩ := exists_cut_eq_concat start
  obtain ⟨right, below, hbehind⟩ := exists_cut_eq_cons (withoutFinal lineBreak tail)
  -- the open line is known before the tokens, and what comes behind them does not look at them
  refine ⟨above, left, right, below, fun line hne => ⟨?_, ?_⟩⟩
  · have hend := lines_append_ofLine hopen hne []
    rw [List.append_nil, withoutFinal_of_getLast?_ne (by simp), cut_nil, List.modifyHead_cons,
      List.append_nil] at hend
    exact hend
  · rw [lines_append_ofLine hopen hne, hbehind, List.modifyHead_cons]

/-! ## Fragments and their events -/

theorem ofFragments_cons (f : Fragment) (rest : List Fragment) :
    ofFragments (f :: rest) = ofChars f.category f.text.toList ++ ofFragments rest :=
  List.flatMap_cons

/-- Fragments without text leave no events behind. -/
theorem ofFragments_filter (fragments : List Fragment) :
    ofFragments (fragments.filter (·.text ≠ "")) = ofFragments fragments := by
  induction fragments with
  | nil => rfl
  | cons f rest ih =>
    by_cases hf : f.text = ""
    · rw [List.filter_cons_of_neg (by simpa using hf), ih, ofFragments_cons, hf,
        String.toList_empty, ofChars, List.nil_append]
    · rw [List.filter_cons_of_pos (by simpa using hf), ofFragments_cons, ofFragments_cons, ih]

/-- The events of fragments of which one is cut in two differ from those of the whole fragments only
    where the last piece before the cut and the first piece behind it stand. -/
theorem exists_events_around_cut (before after : List Fragment) (front back : String) :
    ∃ start tail,
      ofFragments (before ++ [⟨category, front⟩]) =
        start ++ ofLine (Line.ofPiece category (front.toList.rtakeWhile (· ≠ '\n'))) ∧
      ofFragments (before ++ ⟨category, front ++ back⟩ :: after) =
        start ++ (ofLine (Line.ofPiece category
          (front.toList.rtakeWhile (· ≠ '\n') ++ back.toList.takeWhile (· ≠ '\n'))) ++ tail) ∧
      ofFragments (before ++ ⟨category, front⟩ :: ⟨category, back⟩ :: after) =
        start ++ (ofLine (Line.ofPiece category (front.toList.rtakeWhile (· ≠ '\n')) ++
          Line.ofPiece category (back.toList.takeWhile (· ≠ '\n'))) ++ tail) := by
  refine ⟨ofFragments before ++ ofChars category (front.toList.rdropWhile (· ≠ '\n')),
    ofChars category (back.toList.dropWhile (· ≠ '\n')) ++ ofFragments after, ?_, ?_, ?_⟩
  · -- up to the cut the last piece of the front comes last
    rw [ofFragments_append, ofFragments_cons, ofChars_eq_last]
    simp [ofFragments]
  · -- in the whole fragment both pieces are one
    rw [ofFragments_append, ofFragments_cons, String.toList_append, ofChars_append]
    simp only [List.append_assoc]
  · -- where it is cut they stand one behind the other
    rw [ofFragments_append, ofFragments_cons, ofFragments_cons, ofChars_eq_last category front.toList,
      ofChars_eq_first category back.toList]
    simp only [ofLine, List.map_append, List.append_assoc]

end Event

/-- A cut goes through a token if neither the last piece before it nor the first piece behind it is
    empty. -/
theorem cutsToken_iff {front back : String} :
    CutsToken front back ↔ front.toList.rtakeWhile (· ≠ '\n') ≠ [] ∧
      back.toList.takeWhile (· ≠ '\n') ≠ [] := by
  -- a text has a first piece if it starts with another character than a line feed
  have hfirst : ∀ text : List Char, text.takeWhile (· ≠ '\n') ≠ [] ↔
      text ≠ [] ∧ text.head? ≠ some '\n' := by
    intro text
    cases text <;> simp
  have hempty : ∀ text : String, text.toList ≠ [] ↔ text ≠ "" :=
    fun _ => String.toList_eq_nil_iff.not
  rw [List.rtakeWhile, List.reverse_ne_nil_iff, hfirst, hfirst, List.reverse_ne_nil_iff,
    List.head?_reverse, hempty, hempty]
  constructor
  · intro h
    exact ⟨⟨h.front_ne, h.front_open⟩, h.back_ne, h.back_open⟩
  · intro h
    exact ⟨h.1.1, h.2.1, h.1.2, h.2.2⟩

namespace Listing

/-- Fragments with the same events have the same listing. -/
theorem ofFragments_congr {fragments others : List Fragment}
    (h : Event.ofFragments fragments = Event.ofFragments others) :
    ofFragments fragments = ofFragments others := by
  rw [ofFragments, ofFragments, Builder.foldl_push, Builder.foldl_push, h]

/-- Empty fragments make no difference to a listing, wherever they stand.  A fragment that is cut in
    two makes none either, unless the cut goes through a token.  This token is then the last one of
    the listing up to the cut, and in its place there are two of the same category, whose contents,
    joined, are its own. -/
theorem ofFragments_cut :
    (∀ fragments others : List Fragment,
      fragments.filter (·.text ≠ "") = others.filter (·.text ≠ "") →
        ofFragments fragments = ofFragments others) ∧
    ∀ (before after : List Fragment) (category : Category) (front back : String),
      (¬ CutsToken front back →
        ofFragments (before ++ ⟨category, front⟩ :: ⟨category, back⟩ :: after) =
          ofFragments (before ++ ⟨category, front ++ back⟩ :: after)) ∧
      (CutsToken front back →
        ∃ above left right below x y, x ≠ "" ∧ y ≠ "" ∧
          (ofFragments (before ++ [⟨category, front⟩])).lines = above ++ [left ++ [⟨x, category⟩]] ∧
          (ofFragments (before ++ ⟨category, front ++ back⟩ :: after)).lines =
            above ++ (left ++ [⟨x ++ y, category⟩] ++ right) :: below ∧
          (ofFragments (before ++ ⟨category, front⟩ :: ⟨category, back⟩ :: after)).lines =
            above ++ (left ++ [⟨x, category⟩, ⟨y, category⟩] ++ right) :: below) := by
  refine ⟨fun fragments others h => ofFragments_congr ?_, fun before after category front back => ?_⟩
  · -- empty fragments leave no events, so the events are the same
    rw [← Event.ofFragments_filter, h, Event.ofFragments_filter]
  obtain ⟨start, tail, hfront, hjoined, hcut⟩ :=
    Event.exists_events_around_cut category before after front back
  -- `x` is the last piece before the cut and `y` the first one behind it
  rw [cutsToken_iff]
  generalize front.toList.rtakeWhile (· ≠ '\n') = x at *
  generalize back.toList.takeWhile (· ≠ '\n') = y at *
  constructor
  · intro hboundary
    -- a piece that is empty has no token, so the events of both lists are the same
    have hempty : x = [] ∨ y = [] := by
      by_contra hneither
      exact hboundary (not_or.mp hneither)
    exact ofFragments_congr (by rw [hcut, hjoined, Line.ofPiece_append category hempty])
  · intro hinside
    obtain ⟨hx, hy⟩ := hinside
    -- the lines around the pieces do not depend on what tokens stand for them
    obtain ⟨above, left, right, below, hlines⟩ := Event.exists_lines_around start tail
    have hpiece : ∀ piece : List Char, piece ≠ [] →
        Line.ofPiece category piece = [⟨String.ofList piece, category⟩] := fun _ h => if_neg h
    refine ⟨above, left, right, below, String.ofList x, String.ofList y, ?_, ?_, ?_, ?_, ?_⟩
    · simpa [← String.toList_inj] using hx
    · simpa [← String.toList_inj] using hy
    · -- up to the cut the token of `x` comes last
      rw [ofFragments, Builder.finish_foldl_push, hfront, hpiece x hx]
      exact (hlines _ (by simp)).1
    · -- the whole fragment has one token of both pieces
      rw [ofFragments, Builder.finish_foldl_push, hjoined, hpiece _ (by simp [hx]),
        String.ofList_append]
      exact (hlines _ (by simp)).2
    · -- the cut one has a token of each
      rw [ofFragments, Builder.finish_foldl_push, hcut, hpiece x hx, hpiece y hy]
      exact (hlines _ (by simp)).2

/-- A comment of two lines, cut in the second of them, and an empty fragment. -/
theorem ofFragments_cut_of_comment :
    let comment : Category := .ofKey "Comment"
    CutsToken "#a\n#b" "c\n" ∧
      (ofFragments [⟨comment, "#a\n#b"⟩, ⟨comment, "c\n"⟩]).lines =
        [[⟨"#a", comment⟩], [⟨"#b", comment⟩, ⟨"c", comment⟩]] ∧
      ofFragments [⟨comment, "#a\n"⟩, ⟨.root, ""⟩, ⟨comment, "#bc\n"⟩] =
        ofFragments [⟨comment, "#a\n#bc\n"⟩] := by
  intro comment
  have hinside : CutsToken "#a\n#b" "c\n" := by decide
  have hboundary : ¬ CutsToken "#a\n" "#bc\n" := by decide
  obtain ⟨hempty, hcut⟩ := ofFragments_cut
  refine ⟨hinside, ?_, ?_⟩
  · obtain ⟨above, left, right, below, x, y, -, -, hfront, hjoined, hlines⟩ :=
      (hcut [] [] comment "#a\n#b" "c\n").2 hinside
    -- the listing up to the cut says where the token is and what of it comes first
    have hstart : (ofFragments [⟨comment, "#a\n#b"⟩]).lines =
        [[⟨"#a", comment⟩]] ++ [[] ++ [⟨"#b", comment⟩]] := by decide
    obtain ⟨rfl, hlast⟩ := List.append_inj' (hstart.symm.trans hfront) rfl
    obtain ⟨rfl, hx⟩ := List.append_inj' (List.singleton_inj.mp hlast) rfl
    obtain rfl : "#b" = x := by simpa using hx
    -- and the listing of the whole comment what of it is left
    have hwhole : (ofFragments [⟨comment, "#a\n#b" ++ "c\n"⟩]).lines =
        [[⟨"#a", comment⟩]] ++ ([⟨"#b" ++ "c", comment⟩] ++ []) :: [] := by decide
    obtain ⟨hrow, rfl⟩ := List.cons_eq_cons.mp
      (List.append_cancel_left (hwhole.symm.trans hjoined))
    obtain ⟨hy, rfl⟩ := List.append_inj hrow rfl
    obtain rfl : "c" = y := (String.append_right_inj "#b").mp (by simpa using hy)
    exact hlines
  · -- the empty fragment is left out, and the cut is at a line feed
    rw [hempty _ [⟨comment, "#a\n"⟩, ⟨comment, "#bc\n"⟩] (by decide)]
    exact (hcut [] [] comment "#a\n" "#bc\n").1 hboundary

end Listing

end Tinct
