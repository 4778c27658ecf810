import Mathlib.Data.List.TakeWhile
import Tinct.Listing

/-!
# Listings as split event streams

Fragments, read from left to right, are a stream of events: a piece of a line, or the end of a
line.  A listing is that stream, cut at the ends of lines.  The builder keeps only the open line
and reads each fragment once; this file proves that it arrives at the same lines as the cut of
the whole stream.

## Key results

- `push_eq_foldl_take`: taking a fragment is taking its events one by one
- `linesWith_foldl_take`: no event changes the lines that the builder comes to
- `lines_ofFragments`: the listing of any fragments is the cut of all their events
-/

namespace Tinct

/-- A list without its last element, if that is the given one. -/
def withoutFinal {α : Type} [DecidableEq α] (x : α) (l : List α) : List α :=
  if l.getLast? = some x then l.dropLast else l

theorem withoutFinal_concat_self {α : Type} [DecidableEq α] (x : α) (l : List α) :
    withoutFinal x (l ++ [x]) = l := by
  simp [withoutFinal]

theorem withoutFinal_of_getLast?_ne {α : Type} [DecidableEq α] {x : α} {l : List α}
    (h : l.getLast? ≠ some x) : withoutFinal x l = l :=
  if_neg h

/-- What is left of a list was in it before. -/
theorem mem_of_mem_withoutFinal {α : Type} [DecidableEq α] {x a : α} {l : List α}
    (h : a ∈ withoutFinal x l) : a ∈ l := by
  rw [withoutFinal] at h
  split at h
  · exact List.dropLast_subset l h
  · exact h

/-- Of a list that is not empty, the final element that is left out is one occurrence. -/
theorem count_withoutFinal_add_one {α : Type} [DecidableEq α] (x : α) {l : List α} (h : l ≠ []) :
    (withoutFinal x l).count x + 1 = l.count x + if l.getLast? = some x then 0 else 1 := by
  rcases List.eq_nil_or_concat l with rfl | ⟨before, last, rfl⟩
  · exact absurd rfl h
  · rw [List.concat_eq_append]
    by_cases hlast : last = x
    · simp [hlast, withoutFinal]
    · simp [hlast, withoutFinal]

/-- What is left of a text behind the first piece of a line is nothing, or starts with a line
    feed. -/
theorem dropWhile_ne_lineFeed (text : List Char) :
    text.dropWhile (· ≠ '\n') = [] ∨ (text.dropWhile (· ≠ '\n')).head? = some '\n' := by
  have := List.head?_dropWhile_not (fun c => decide (c ≠ '\n')) text
  -- what is left is either nothing or starts with the character that stopped the run
  cases h : (text.dropWhile (· ≠ '\n')).head? with
  | none => exact .inl (List.head?_eq_none_iff.mp h)
  | some d => simp_all

theorem lineFeed_not_mem_takeWhile (text : List Char) : '\n' ∉ text.takeWhile (· ≠ '\n') := by
  intro hmem
  simpa using List.mem_takeWhile_imp hmem

/-- What a reader of fragments comes across: a piece of a line, or the end of a line. -/
inductive Event where
  | token (t : Token)
  | lineBreak
deriving DecidableEq, Repr

namespace Event

/-- Whether the event is the end of a line. -/
def isBreak : Event → Bool
  | token _ => false
  | lineBreak => true

/-- The token of the event, if it is one. -/
def token? : Event → Option Token
  | token t => some t
  | lineBreak => none

/-- The events of a text of one category: every line feed ends a line, and everything from
    another character up to the next line feed is one token. -/
def ofChars (category : Category) : List Char → List Event
  | [] => []
  | c :: rest =>
    if c = '\n' then lineBreak :: ofChars category rest
    else
      token ⟨String.ofList (c :: rest.takeWhile (· ≠ '\n')), category⟩ ::
        ofChars category (rest.dropWhile (· ≠ '\n'))
termination_by text => text.length
decreasing_by
  · simp
  · have := (List.dropWhile_suffix (· ≠ '\n') (l := rest)).length_le
    simp only [List.length_cons]; omega

/-- The events of fragments, in order. -/
def ofFragments (fragments : List Fragment) : List Event :=
  fragments.flatMap fun f => ofChars f.category f.text.toList

/-- The tokens between the ends of lines; there is one more of these lists than ends. -/
def cut (es : List Event) : List Line :=
  (es.splitOnP isBreak).map (·.filterMap token?)

/-- The lines of a stream of events.  The end of the last line does not open another line, and
    without events there are no lines at all. -/
def lines (es : List Event) : List Line :=
  if es = [] then [] else cut (withoutFinal lineBreak es)

/-- Events are cut once a final end of a line is left out. -/
theorem lines_of_ne_nil {es : List Event} (h : es ≠ []) :
    lines es = cut (withoutFinal lineBreak es) :=
  if_neg h

/-! ## Cutting one event at a time -/

@[simp] theorem cut_nil : cut [] = [[]] := by
  simp [cut]

@[simp] theorem cut_lineBreak_cons (es : List Event) :
    cut (lineBreak :: es) = [] :: cut es := by
  simp [cut, List.splitOnP_cons_eq_if_modifyHead, isBreak]

@[simp] theorem cut_token_cons (t : Token) (es : List Event) :
    cut (token t :: es) = (cut es).modifyHead (t :: ·) := by
  obtain ⟨head, tail, h⟩ := List.exists_cons_of_ne_nil (List.splitOnP_ne_nil isBreak es)
  simp [cut, List.splitOnP_cons_eq_if_modifyHead, isBreak, h, token?]

/-- However events are cut, there is a first line. -/
theorem exists_cut_eq_cons (es : List Event) : ∃ line rest, cut es = line :: rest := by
  obtain ⟨head, tail, h⟩ := List.exists_cons_of_ne_nil (List.splitOnP_ne_nil isBreak es)
  exact ⟨_, _, by rw [cut, h, List.map_cons]⟩

/-- Behind the end of a line another one is open. -/
theorem cut_append_lineBreak (es : List Event) : cut (es ++ [lineBreak]) = cut es ++ [[]] := by
  rw [cut, List.splitOnP_append_cons es [] (by rfl : isBreak lineBreak)]
  simp [cut]

end Event

namespace Listing.Builder

/-- Takes one event: a token goes to the open line, the end of a line completes it. -/
def take (b : Builder) : Event → Builder
  | .token t => { b with current := b.current.push t }
  | .lineBreak => b.breakLine

/-- The lines that the builder comes to with the given events still ahead: its complete lines,
    and the cut of the events as the continuation of the open line. -/
def linesWith (b : Builder) (ahead : List Event) : List Line :=
  b.complete.toList ++ (Event.cut ahead).modifyHead (b.current.toList ++ ·)

/-! ## Fragments as events -/

/-- A piece with others behind it is added, and ends its line. -/
private theorem addPieces_cons_splitOn (b : Builder) (category : Category) (piece text : List Char) :
    b.addPieces category (piece :: text.splitOn '\n') =
      (b.add category piece).breakLine.addPieces category (text.splitOn '\n') := by
  obtain ⟨next, pieces, h⟩ := List.exists_cons_of_ne_nil (List.splitOn_ne_nil '\n' text)
  simp only [h, addPieces]

/-- A text whose first line feed is behind `piece`, if it has one. -/
private theorem addPieces_append (b : Builder) (category : Category) {piece rest : List Char}
    (hpiece : '\n' ∉ piece) (hrest : rest = [] ∨ rest.head? = some '\n') :
    b.addPieces category ((piece ++ rest).splitOn '\n') =
      (b.add category piece).addPieces category (rest.splitOn '\n') := by
  cases hrest with
  -- at the end of the text the piece is the only one
  | inl h => simp [h, List.splitOn_eq_singleton hpiece, addPieces, add]
  | inr h =>
    obtain ⟨text, rfl⟩ : ∃ text, rest = '\n' :: text := by
      cases rest with
      | nil => simp at h
      | cons c text => exact ⟨text, by simpa using h⟩
    -- on both sides a piece is parted off, and the empty one leaves no token
    rw [List.splitOn_append_cons_self_of_not_mem hpiece, addPieces_cons_splitOn,
      show '\n' :: text = [] ++ '\n' :: text from rfl,
      List.splitOn_append_cons_self_of_not_mem (by simp), addPieces_cons_splitOn]
    simp only [add, List.isEmpty_nil, if_true]

/-- Taking the pieces of a text is taking its events. -/
private theorem addPieces_splitOn (b : Builder) (category : Category) (text : List Char) :
    b.addPieces category (text.splitOn '\n') = (Event.ofChars category text).foldl take b := by
  fun_induction Event.ofChars category text generalizing b with
  | case1 => simp [addPieces, add]
  | case2 rest ih =>
    -- the empty piece before a line feed adds no token
    rw [show '\n' :: rest = [] ++ '\n' :: rest from rfl,
      List.splitOn_append_cons_self_of_not_mem (by simp), addPieces_cons_splitOn,
      List.foldl_cons, ih]
    rfl
  | case3 c rest hc ih =>
    -- the token is the first piece up to the next line feed
    have hpiece : '\n' ∉ c :: rest.takeWhile (· ≠ '\n') :=
      List.not_mem_cons_of_ne_of_not_mem (Ne.symm hc) (lineFeed_not_mem_takeWhile rest)
    have := addPieces_append b category hpiece (dropWhile_ne_lineFeed rest)
    rw [List.cons_append, List.takeWhile_append_dropWhile] at this
    rw [this, ih, List.foldl_cons]
    rfl

/-- Taking a fragment is taking its events one by one. -/
theorem push_eq_foldl_take (b : Builder) (f : Fragment) :
    b.push f = (Event.ofChars f.category f.text.toList).foldl take b :=
  addPieces_splitOn b f.category f.text.toList

/-- Taking fragments is taking all their events. -/
theorem foldl_push (b : Builder) (fragments : List Fragment) :
    fragments.foldl push b = (Event.ofFragments fragments).foldl take b := by
  -- the events of the first fragment come before those of the others
  induction fragments generalizing b with
  | nil => rfl
  | cons f rest ih =>
    rw [Event.ofFragments, List.flatMap_cons, List.foldl_append, List.foldl_cons, ih,
      push_eq_foldl_take]
    rfl

/-! ## The lines of the builder -/

/-- A builder whose open line has no token leads to its complete lines and the cut. -/
theorem linesWith_of_isEmpty {b : Builder} (h : b.current.isEmpty) (ahead : List Event) :
    b.linesWith ahead = b.complete.toList ++ Event.cut ahead := by
  rw [Array.isEmpty_iff] at h
  have hid : (fun line : Line => ([] : Line) ++ line) = id := rfl
  rw [linesWith, h, hid, List.modifyHead_id, id]

/-- The step of the invariant: taking the next event does not change where the builder leads. -/
theorem linesWith_take (b : Builder) (e : Event) (ahead : List Event) :
    (b.take e).linesWith ahead = b.linesWith (e :: ahead) := by
  cases e with
  -- the token moves from what is ahead to the open line
  | token t =>
    rw [linesWith, linesWith, Event.cut_token_cons, List.modifyHead_modifyHead]
    simp [take, Function.comp_def]
  -- the open line is completed, and the next one starts empty
  | lineBreak =>
    rw [linesWith_of_isEmpty rfl, linesWith, Event.cut_lineBreak_cons, List.modifyHead_cons]
    simp [take, breakLine]

/-- After any events, the lines of the builder are the lines it started from, the open one
    continued by the cut of the events. -/
theorem linesWith_foldl_take (b : Builder) (es : List Event) :
    (es.foldl take b).linesWith [] = b.linesWith es := by
  induction es generalizing b with
  | nil => rfl
  | cons e es ih => rw [List.foldl_cons, ih, linesWith_take]

/-- From the start, the builder leads to the cut of the events. -/
theorem linesWith_empty (es : List Event) : empty.linesWith es = Event.cut es :=
  linesWith_of_isEmpty rfl es

/-- Finishing keeps the complete lines, and the open line if it has a token. -/
theorem finish_lines (b : Builder) :
    b.finish.lines = if b.current.isEmpty then b.complete.toList else b.linesWith [] := by
  rw [finish]
  split
  · rfl
  · simp [breakLine, linesWith]

/-- Finishing after any events gives the lines of the events. -/
theorem finish_foldl_take (es : List Event) :
    (es.foldl take empty).finish.lines = Event.lines es := by
  -- the last event decides whether the open line has a token
  rcases List.eq_nil_or_concat es with rfl | ⟨before, last, rfl⟩
  · rfl
  · have hne : before.concat last ≠ [] := by simp
    rw [finish_lines, Event.lines, if_neg hne, List.concat_eq_append]
    cases last with
    | token t =>
      -- a token leaves the line open, and no final end is left out
      have hlast : (before ++ [Event.token t]).getLast? ≠ some .lineBreak := by simp
      have hopen : ¬ ((before ++ [Event.token t]).foldl take empty).current.isEmpty := by
        simp [take]
      rw [if_neg hopen, linesWith_foldl_take, linesWith_empty, withoutFinal_of_getLast?_ne hlast]
    | lineBreak =>
      -- the end of a line leaves the builder without an open line, and is left out of the events
      have hclosed : ((before ++ [Event.lineBreak]).foldl take empty).current.isEmpty := by
        simp [take, breakLine]
      have hrun := linesWith_foldl_take empty (before ++ [Event.lineBreak])
      rw [linesWith_of_isEmpty hclosed, linesWith_empty, Event.cut_append_lineBreak] at hrun
      rw [if_pos hclosed, withoutFinal_concat_self]
      exact List.append_cancel_right hrun

/-- The listing of fragments holds the lines of their events. -/
theorem finish_foldl_push (fragments : List Fragment) :
    (fragments.foldl push empty).finish.lines = Event.lines (Event.ofFragments fragments) := by
  rw [foldl_push, finish_foldl_take]

end Listing.Builder

/-- The listing of any fragments is the stream of their events, split at the ends of lines:
    without events there are no lines; otherwise one final end of a line is left out, and every
    other end parts two lines.  So tokens keep their texts, categories and order, tokens of
    different fragments stay apart, and blank lines stay. -/
theorem Listing.lines_ofFragments (fragments : List Fragment) :
    (Listing.ofFragments fragments).lines = Event.lines (Event.ofFragments fragments) :=
  Builder.finish_foldl_push fragments

/-- A blank line stays, and an empty fragment leaves nothing behind. -/
example :
    (Listing.ofFragments [⟨.root, "a\n\n"⟩, ⟨.root, ""⟩, ⟨.root, "b\n"⟩]).lines =
      [[⟨"a", .root⟩], [], [⟨"b", .root⟩]] := by
  decide

end Tinct
