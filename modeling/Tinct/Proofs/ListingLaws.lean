import Mathlib.Data.List.Basic
import Tinct.Proofs.ListingText

/-!
# Listings joined, and listings taken apart

The listing of two rows of fragments is made of their two listings: if the first text is empty or
ends with a line feed, the lines of the second listing follow those of the first; otherwise the last
line of the first listing goes on with the first line of the second.  In the other direction, a
listing can be taken apart into its tokens with a line feed behind every line, and these fragments
give the listing again.

## Key results

- `Event.cut_append`: the cut of two streams of events, one behind the other
- `Listing.lines_ofFragments_append`: the listing of two rows of fragments, one behind the other
- `Listing.ofFragments_fragments`: the listing of the fragments of a listing
-/

namespace Tinct

/-- The final element is one of the second list if there is any. -/
theorem withoutFinal_append {α : Type} [DecidableEq α] (x : α) (front : List α) {back : List α}
    (h : back ≠ []) : withoutFinal x (front ++ back) = front ++ withoutFinal x back := by
  obtain ⟨before, last, rfl⟩ := (List.eq_nil_or_concat' back).resolve_left h
  rw [← List.append_assoc]
  by_cases hlast : last = x
  · rw [hlast, withoutFinal_concat_self, withoutFinal_concat_self]
  · rw [withoutFinal_of_getLast?_ne (by simpa using hlast),
      withoutFinal_of_getLast?_ne (by simpa using hlast), List.append_assoc]

/-- Without events ahead, the open line is the last one. -/
theorem Listing.Builder.linesWith_nil (b : Builder) :
    b.linesWith [] = b.complete.toList ++ [b.current.toList] := by
  rw [linesWith, Event.cut_nil, List.modifyHead_cons, List.append_nil]

/-- The text of the fragments is empty or ends with a line feed. -/
def EndsLine (fragments : List Fragment) : Prop :=
  String.join (fragments.map (·.text)) = "" ∨
    (String.join (fragments.map (·.text))).toList.getLast? = some '\n'

instance (fragments : List Fragment) : Decidable (EndsLine fragments) :=
  inferInstanceAs (Decidable (_ ∨ _))

namespace Event

/-! ## Streams one behind the other -/

theorem ofFragments_append (xs ys : List Fragment) :
    ofFragments (xs ++ ys) = ofFragments xs ++ ofFragments ys :=
  List.flatMap_append

/-- A cut has a last line, which is open for the events that follow. -/
theorem exists_cut_eq_concat (es : List Event) : ∃ before last, cut es = before ++ [last] := by
  obtain ⟨line, rest, h⟩ := exists_cut_eq_cons es
  exact (List.eq_nil_or_concat' (cut es)).resolve_left (by simp [h])

/-- The last line of a cut goes on with the first line of the events that follow: a builder that
    has taken the events before them has that line open. -/
theorem cut_append {front : List Event} {before : List Line} {last : Line}
    (h : cut front = before ++ [last]) (back : List Event) :
    cut (front ++ back) = before ++ (cut back).modifyHead (last ++ ·) := by
  generalize hb : front.foldl Listing.Builder.take .empty = b
  have hfront : cut front = b.complete.toList ++ [b.current.toList] := by
    rw [← Listing.Builder.linesWith_empty, ← Listing.Builder.linesWith_foldl_take, hb,
      Listing.Builder.linesWith_nil]
  obtain ⟨hbefore, hlast⟩ := List.append_inj' (hfront.symm.trans h) rfl
  obtain rfl := List.singleton_inj.mp hlast
  rw [← Listing.Builder.linesWith_empty, ← Listing.Builder.linesWith_foldl_take, List.foldl_append,
    hb, Listing.Builder.linesWith_foldl_take, Listing.Builder.linesWith, hbefore]

/-- Behind the end of a line a new line starts. -/
theorem cut_append_lineBreak_cons (front back : List Event) :
    cut (front ++ lineBreak :: back) = cut front ++ cut back := by
  obtain ⟨first, rest, hback⟩ := exists_cut_eq_cons back
  rw [← List.singleton_append, ← List.append_assoc, cut_append (cut_append_lineBreak front), hback]
  rfl

/-- Without events there are no lines, and only then. -/
theorem lines_eq_nil_iff {es : List Event} : lines es = [] ↔ es = [] := by
  constructor
  · intro h
    by_contra hne
    obtain ⟨first, rest, hcut⟩ := exists_cut_eq_cons (withoutFinal lineBreak es)
    rw [lines_of_ne_nil hne, hcut] at h
    cases h
  · intro h
    rw [h]
    rfl

/-- Behind the end of a line the lines are those that the events have on their own. -/
theorem lines_append_of_closed {front : List Event}
    (h : front = [] ∨ front.getLast? = some lineBreak) (back : List Event) :
    lines (front ++ back) = lines front ++ lines back := by
  rcases h with rfl | hlast
  · rfl
  obtain ⟨before, rfl⟩ := List.getLast?_eq_some_iff.mp hlast
  have hfront : lines (before ++ [lineBreak]) = cut before := by
    rw [lines_of_ne_nil (by simp), withoutFinal_concat_self]
  by_cases hback : back = []
  · rw [hback, List.append_nil, lines_eq_nil_iff.mpr rfl, List.append_nil]
  · rw [hfront, lines_of_ne_nil hback, lines_of_ne_nil (by simp), withoutFinal_append _ _ hback,
      List.append_assoc, List.singleton_append, cut_append_lineBreak_cons]

/-- A line that a token leaves open goes on with the first line of the events that follow. -/
theorem lines_append_of_open {front : List Event} (hne : front ≠ [])
    (hlast : front.getLast? ≠ some lineBreak) (back : List Event) :
    ∃ before last, lines front = before ++ [last] ∧
      ∀ first rest, lines back = first :: rest →
        lines (front ++ back) = before ++ (last ++ first) :: rest := by
  have hfront : lines front = cut front := by
    rw [lines_of_ne_nil hne, withoutFinal_of_getLast?_ne hlast]
  obtain ⟨before, last, hcut⟩ := exists_cut_eq_concat front
  refine ⟨before, last, hfront.trans hcut, fun first rest hback => ?_⟩
  -- only a row of events has a first line
  have hne_back : back ≠ [] := by
    intro hnil
    rw [lines_eq_nil_iff.mpr hnil] at hback
    cases hback
  rw [lines_of_ne_nil (by simp [hne]), withoutFinal_append _ _ hne_back, cut_append hcut,
    ← lines_of_ne_nil hne_back, hback, List.modifyHead_cons]

/-! ## Ends of texts -/

/-- The text of fragments is closed if their events are. -/
theorem endsLine_iff {fragments : List Fragment} :
    EndsLine fragments ↔
      ofFragments fragments = [] ∨ (ofFragments fragments).getLast? = some lineBreak := by
  have hsolid := allSolid_ofFragments fragments
  have hempty : String.join (fragments.map (·.text)) = "" ↔ ofFragments fragments = [] := by
    rw [← String.toList_eq_nil_iff, ← flatMap_chars_ofFragments]
    constructor
    · intro h
      by_contra hne
      exact flatMap_chars_ne_nil hsolid hne h
    · intro h
      rw [h]
      rfl
  rw [EndsLine, hempty, ← flatMap_chars_ofFragments, getLast?_flatMap_chars_iff hsolid]

end Event

namespace Listing

/-- The listing of two rows of fragments.  Behind a text that is empty or ends with a line feed, the
    second row has the lines that it has on its own.  Otherwise the last line of the first row goes
    on with the first line of the second, if that has any.  So a builder that takes more fragments
    keeps all its complete lines, and adds to the open one. -/
theorem lines_ofFragments_append (xs ys : List Fragment) :
    (EndsLine xs →
      (ofFragments (xs ++ ys)).lines = (ofFragments xs).lines ++ (ofFragments ys).lines) ∧
    (¬ EndsLine xs →
      ∃ before last, (ofFragments xs).lines = before ++ [last] ∧
        ((ofFragments ys).lines = [] → ofFragments (xs ++ ys) = ofFragments xs) ∧
        ∀ first rest, (ofFragments ys).lines = first :: rest →
          (ofFragments (xs ++ ys)).lines = before ++ (last ++ first) :: rest) ∧
    ∀ b : Builder, ∃ more after,
      (ys.foldl Builder.push b).complete.toList ++ [(ys.foldl Builder.push b).current.toList] =
        b.complete.toList ++ (b.current.toList ++ more) :: after := by
  rw [Event.endsLine_iff]
  refine ⟨fun hclosed => ?_, fun hopen => ?_, fun b => ?_⟩
  · simp only [ofFragments, Builder.finish_foldl_push, Event.ofFragments_append]
    -- behind a closed line the second row starts a line of its own
    exact Event.lines_append_of_closed hclosed _
  · rw [not_or] at hopen
    -- an open line goes on with the first line of the second row
    obtain ⟨before, last, hfront, hback⟩ :=
      Event.lines_append_of_open hopen.1 hopen.2 (Event.ofFragments ys)
    simp only [ofFragments, Builder.finish_foldl_push, Event.ofFragments_append]
    refine ⟨before, last, hfront, fun hnil => ?_, hback⟩
    -- a row without lines has no events either
    rw [Builder.foldl_push, Builder.foldl_push, Event.ofFragments_append,
      Event.lines_eq_nil_iff.mp hnil, List.append_nil]
  · -- the lines of the builder are those it has, continued by what is ahead
    obtain ⟨more, after, hcut⟩ := Event.exists_cut_eq_cons (Event.ofFragments ys)
    refine ⟨more, after, ?_⟩
    rw [← Builder.linesWith_nil, Builder.foldl_push, Builder.linesWith_foldl_take,
      Builder.linesWith, hcut, List.modifyHead_cons]

/-- A line that one row leaves open goes on in the next one, and a line that it ends does not. -/
theorem lines_ofFragments_append_of_open :
    (¬ EndsLine [⟨.root, "a\nb"⟩, ⟨.root, ""⟩] ∧
      (ofFragments ([⟨.root, "a\nb"⟩, ⟨.root, ""⟩] ++ [⟨.root, "c\n\n"⟩])).lines =
        [[⟨"a", .root⟩]] ++ ([⟨"b", .root⟩] ++ [⟨"c", .root⟩]) :: [[]]) ∧
    (EndsLine [⟨.root, "a\n"⟩] ∧
      (ofFragments ([⟨.root, "a\n"⟩] ++ [⟨.root, "\nb"⟩])).lines =
        [[⟨"a", .root⟩]] ++ [[], [⟨"b", .root⟩]]) := by
  have hopen : ¬ EndsLine [⟨.root, "a\nb"⟩, ⟨.root, ""⟩] := by decide
  have hclosed : EndsLine [⟨.root, "a\n"⟩] := by decide
  refine ⟨⟨hopen, ?_⟩, hclosed, (lines_ofFragments_append _ [⟨.root, "\nb"⟩]).1 hclosed⟩
  obtain ⟨before, last, hlines, -, hback⟩ :=
    (lines_ofFragments_append _ [⟨.root, "c\n\n"⟩]).2.1 hopen
  -- the first row has two lines
  obtain ⟨rfl, hlast⟩ :=
    List.append_inj' (show [[⟨"a", .root⟩]] ++ [[⟨"b", .root⟩]] = before ++ [last] from hlines) rfl
  obtain rfl := List.singleton_inj.mp hlast
  exact hback _ _ rfl

end Listing

/-! ## Listings taken apart -/

/-- The token as a fragment. -/
def Token.fragment (t : Token) : Fragment := ⟨t.category, t.content⟩

instance (t : Token) : Decidable t.IsSolid :=
  decidable_of_iff (t.content ≠ "" ∧ '\n' ∉ t.content.toList)
    ⟨fun h => ⟨h.1, h.2⟩, fun h => ⟨h.content_ne, h.no_lineFeed⟩⟩

/-- The tokens of a piece of a line: one, or none if the piece is empty. -/
def Line.ofPiece (category : Category) (piece : List Char) : Line :=
  if piece = [] then [] else [⟨String.ofList piece, category⟩]

/-- All tokens of the listing are solid. -/
def Listing.IsSolid (l : Listing) : Prop := ∀ line ∈ l.lines, ∀ t ∈ line, t.IsSolid

instance (l : Listing) : Decidable l.IsSolid :=
  inferInstanceAs (Decidable (∀ line ∈ l.lines, ∀ t ∈ line, t.IsSolid))

/-- The tokens of a listing as fragments, with a line feed behind every line; `ends` gives the
    categories of these line feeds by the number of the line. -/
def Listing.fragments (l : Listing) (ends : Nat → Category) : List Fragment :=
  l.lines.zipIdx.flatMap fun (line, n) => line.map Token.fragment ++ [⟨ends n, "\n"⟩]

namespace Event

/-- The tokens of a line as events. -/
def ofLine (line : Line) : List Event := line.map token

/-- The events of lines, with the end of a line behind each of them. -/
def ofLines (lines : List Line) : List Event := lines.flatMap fun line => ofLine line ++ [lineBreak]

theorem ofChars_lineFeed (category : Category) : ofChars category ['\n'] = [lineBreak] := by
  rw [ofChars, if_pos rfl, ofChars]

/-- The piece of a line that a text starts with, and what follows it. -/
theorem ofChars_piece_append (category : Category) {piece rest : List Char} (hpiece : '\n' ∉ piece)
    (hrest : rest = [] ∨ rest.head? = some '\n') :
    ofChars category (piece ++ rest) =
      ofLine (Line.ofPiece category piece) ++ ofChars category rest := by
  cases piece with
  | nil => rfl
  | cons c tail =>
    rw [List.mem_cons, not_or] at hpiece
    have hall : ∀ d ∈ tail, decide (d ≠ '\n') = true := by
      intro d hd
      rw [decide_eq_true_iff]
      rintro rfl
      exact hpiece.2 hd
    -- what is behind the piece starts with a line feed, so the run stops in front of it
    have htake : rest.takeWhile (· ≠ '\n') = [] := by
      cases rest <;> simp_all
    have hdrop : rest.dropWhile (· ≠ '\n') = rest := by
      cases rest <;> simp_all
    rw [List.cons_append, ofChars, if_neg (Ne.symm hpiece.1), List.takeWhile_append_of_pos hall,
      List.dropWhile_append_of_pos hall, htake, hdrop, List.append_nil]
    rfl

/-- A solid token is its only event. -/
theorem ofChars_of_isSolid {t : Token} (h : t.IsSolid) :
    ofChars t.category t.content.toList = [token t] := by
  have hne : t.content.toList ≠ [] := mt String.toList_eq_nil_iff.mp h.content_ne
  have hpiece := ofChars_piece_append t.category h.no_lineFeed (.inl rfl)
  rw [List.append_nil, ofChars, List.append_nil, Line.ofPiece, if_neg hne, String.ofList_toList]
    at hpiece
  exact hpiece

/-- The tokens of a line are read from their own fragments. -/
theorem ofFragments_line {line : Line} (h : ∀ t ∈ line, t.IsSolid) :
    ofFragments (line.map Token.fragment) = ofLine line := by
  rw [ofFragments, List.flatMap_map, ofLine, List.map_eq_flatMap]
  exact List.flatMap_congr fun t ht => ofChars_of_isSolid (h t ht)

/-- The fragments of a solid line and its line feed are read as the line and its end. -/
theorem ofFragments_row {line : Line} (h : ∀ t ∈ line, t.IsSolid) (category : Category) :
    ofFragments (line.map Token.fragment ++ [⟨category, "\n"⟩]) = ofLine line ++ [lineBreak] := by
  have hbreak : ofFragments [⟨category, "\n"⟩] = [lineBreak] := by
    rw [ofFragments, List.flatMap_singleton, show "\n".toList = ['\n'] from rfl]
    exact ofChars_lineFeed category
  rw [ofFragments_append, ofFragments_line h, hbreak]

/-- The fragments of solid lines, taken apart, are read as these lines, each with its end. -/
theorem ofFragments_eq_ofLines {l : Listing} (h : l.IsSolid) (ends : Nat → Category) :
    ofFragments (l.fragments ends) = ofLines l.lines := by
  have hrows : ofFragments (l.fragments ends) =
      l.lines.zipIdx.flatMap fun row => ofLine row.1 ++ [lineBreak] := by
    rw [Listing.fragments, ofFragments, List.flatMap_assoc]
    exact List.flatMap_congr fun row hrow =>
      ofFragments_row (h row.1 (List.fst_mem_of_mem_zipIdx hrow)) (ends row.2)
  -- the categories of the line feeds leave no trace
  rw [hrows, ofLines]
  conv_rhs => rw [← List.zipIdx_map_fst 0 l.lines, List.flatMap_map]

/-- Tokens alone are one line. -/
theorem cut_ofLine (line : Line) : cut (ofLine line) = [line] := by
  induction line with
  | nil => exact cut_nil
  | cons t line ih =>
    rw [ofLine, List.map_cons, cut_token_cons, ← ofLine, ih, List.modifyHead_cons]

/-- Behind whole lines the cut goes on with the events that follow. -/
theorem cut_ofLines_append (rows : List Line) (back : List Event) :
    cut (ofLines rows ++ back) = rows ++ cut back := by
  induction rows with
  | nil => rfl
  | cons line rows ih =>
    rw [ofLines, List.flatMap_cons, List.append_assoc, List.append_assoc, List.singleton_append,
      cut_append_lineBreak_cons, cut_ofLine, ← ofLines, ih, List.singleton_append, List.cons_append]

/-- The last line ends like the others. -/
theorem ofLines_concat (rows : List Line) (last : Line) :
    ofLines (rows ++ [last]) = ofLines rows ++ ofLine last ++ [lineBreak] := by
  rw [ofLines, List.flatMap_append, List.flatMap_singleton, ← List.append_assoc]
  rfl

/-- Lines with all their ends are the lines of their events. -/
theorem lines_ofLines (rows : List Line) : lines (ofLines rows) = rows := by
  rcases List.eq_nil_or_concat' rows with rfl | ⟨front, last, rfl⟩
  · rfl
  · rw [ofLines_concat, lines_of_ne_nil (by simp), withoutFinal_concat_self,
      cut_ofLines_append, cut_ofLine]

/-- Without the last end they still are, unless the last line has no token. -/
theorem lines_ofLines_append_ofLine (rows : List Line) (last : Line) :
    lines (ofLines rows ++ ofLine last) = rows ++ if last = [] then [] else [last] := by
  rcases List.eq_nil_or_concat' last with rfl | ⟨front, t, rfl⟩
  · rw [if_pos rfl, List.append_nil]
    exact (congrArg lines (List.append_nil _)).trans (lines_ofLines rows)
  · have hlast : (ofLines rows ++ ofLine (front ++ [t])).getLast? ≠ some lineBreak := by
      simp [ofLine]
    rw [lines_of_ne_nil (by simp [ofLine]), withoutFinal_of_getLast?_ne hlast, cut_ofLines_append,
      cut_ofLine, if_neg (by simp)]

end Event

namespace Listing

/-- A listing taken apart, by its last line. -/
theorem fragments_of_concat {l : Listing} {front : List Line} {last : Line}
    (h : l.lines = front ++ [last]) (ends : Nat → Category) :
    l.fragments ends =
      (Listing.mk front).fragments ends ++ last.map Token.fragment ++
        [⟨ends front.length, "\n"⟩] := by
  rw [fragments, h, List.zipIdx_append, List.flatMap_append, List.append_assoc]
  simp [fragments]

/-- A listing of solid tokens, taken apart, gives itself again, whatever the categories of the line
    feeds.  The line feed behind its last line makes a difference only if this line is blank. -/
theorem ofFragments_fragments (l : Listing) (h : l.IsSolid) (ends : Nat → Category) :
    ofFragments (l.fragments ends) = l ∧
      (l.lines ≠ [] →
        (ofFragments (l.fragments ends).dropLast = l ↔ l.lines.getLast? ≠ some [])) := by
  -- a listing is known by its lines
  have hsame : ∀ fragments, ofFragments fragments = l ↔
      Event.lines (Event.ofFragments fragments) = l.lines := by
    intro fragments
    rw [← Builder.finish_foldl_push, ← ofFragments]
    exact ⟨congrArg Listing.lines, fun hlines => congrArg Listing.mk hlines⟩
  refine ⟨?_, fun hne => ?_⟩
  · rw [hsame, Event.ofFragments_eq_ofLines h, Event.lines_ofLines]
  · obtain ⟨front, last, hlines⟩ := (List.eq_nil_or_concat l.lines).resolve_left hne
    rw [List.concat_eq_append] at hlines
    have hfront : (Listing.mk front).IsSolid := fun line hline =>
      h line (hlines ▸ List.mem_append_left _ hline)
    have hlast : ∀ t ∈ last, t.IsSolid := h last (by simp [hlines])
    rw [hsame, fragments_of_concat hlines, List.dropLast_concat, Event.ofFragments_append,
      Event.ofFragments_eq_ofLines hfront, Event.ofFragments_line hlast,
      Event.lines_ofLines_append_ofLine, hlines]
    -- an empty last line is only there because of its break
    by_cases hblank : last = []
    · simp [hblank]
    · simp [hblank]

/-- Blank lines around a line of two tokens, and line feeds of different categories. -/
theorem ofFragments_fragments_of_blank :
    let l : Listing := ⟨[[], [⟨"a", .root⟩, ⟨"b", .root⟩], []]⟩
    let ends : Nat → Category := fun n => if n = 1 then .ofKey "Text" else .root
    l.IsSolid ∧ ofFragments (l.fragments ends) = l ∧ ofFragments (l.fragments ends).dropLast ≠ l := by
  intro l ends
  have hsolid : l.IsSolid := by decide
  obtain ⟨hsame, hopen⟩ := ofFragments_fragments l hsolid ends
  refine ⟨hsolid, hsame, fun heq => ?_⟩
  exact (hopen (by simp [l])).mp heq rfl

end Listing

end Tinct
