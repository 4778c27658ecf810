import Tinct.Proofs.PythonLexemes

/-!
# The extents of Python string literals

A backslash hides the character behind it.  A literal in three quotes ends with the first three
quotes in a row that stand where no backslash hides them; a literal on one line ends with the first
such quote, or before the first such line feed if that one comes first.

## Key results

- `docReach_take`, `lineReach_take`: where literals end, in terms of what no backslash hides
- `extent_iff`: the form of a literal, and what it takes of the text behind its quote
-/

namespace Tinct.Lexer.Python

/-! ## What no backslash hides -/

/-- A text that a scan passes as a whole: a backslash goes with the character behind it. -/
inductive Scanned : List Char → Prop
  | nil : Scanned []
  | plain {c : Char} {rest : List Char} (hc : c ≠ '\\') (h : Scanned rest) : Scanned (c :: rest)
  | hidden {c : Char} {rest : List Char} (h : Scanned rest) : Scanned ('\\' :: c :: rest)

/-- A mark stands in a text right behind its first characters, where no backslash hides it. -/
def StandsAt (mark text front : List Char) : Prop := Scanned front ∧ front ++ mark <+: text

/-- A mark stands there for the first time. -/
def IsFirst (mark text front : List Char) : Prop :=
  StandsAt mark text front ∧ ∀ other, StandsAt mark text other → front.length ≤ other.length

/-- A mark stands in a text with some more characters before it where it stands in the text. -/
def Shifts (mark unit text : List Char) : Prop :=
  ∀ front, StandsAt mark (unit ++ text) front ↔ ∃ rest, front = unit ++ rest ∧ StandsAt mark text rest

/-- A character that starts no mark moves all the places by one. -/
theorem shifts_plain {mark text : List Char} {c : Char} (hc : c ≠ '\\')
    (h : ¬ mark <+: c :: text) : Shifts mark [c] text := by
  intro front
  constructor
  · rintro ⟨hscanned, hstart⟩
    cases hscanned with
    | nil => exact absurd hstart h -- the mark does not stand at the very start
    | plain _ hrest =>
      obtain ⟨rfl, hbehind⟩ := List.cons_prefix_cons.mp hstart
      exact ⟨_, rfl, hrest, hbehind⟩
    | hidden => exact absurd (List.cons_prefix_cons.mp hstart).1.symm hc
  · rintro ⟨rest, rfl, hscanned, hstart⟩
    exact ⟨.plain hc hscanned, List.cons_prefix_cons.mpr ⟨rfl, hstart⟩⟩

/-- A character behind a backslash starts no mark, and moves them by two. -/
theorem shifts_hidden {m : Char} (hm : m ≠ '\\') (more : List Char) (c : Char)
    (text : List Char) : Shifts (m :: more) ['\\', c] text := by
  intro front
  constructor
  · rintro ⟨hscanned, hstart⟩
    cases hscanned with
    | nil => exact absurd (List.cons_prefix_cons.mp hstart).1 hm
    | plain hc => exact absurd (List.cons_prefix_cons.mp hstart).1 hc
    | hidden hrest =>
      obtain ⟨-, hnext⟩ := List.cons_prefix_cons.mp hstart
      obtain ⟨rfl, hbehind⟩ := List.cons_prefix_cons.mp hnext
      exact ⟨_, rfl, hrest, hbehind⟩
  · rintro ⟨rest, rfl, hscanned, hstart⟩
    exact ⟨.hidden hscanned, (List.prefix_append_right_inj ['\\', c]).mpr hstart⟩

/-- In the empty text no mark stands anywhere. -/
theorem not_standsAt_nil {m : Char} {more front : List Char} :
    ¬ StandsAt (m :: more) [] front := by
  rintro ⟨-, hstart⟩
  exact List.append_ne_nil_of_right_ne_nil front (List.cons_ne_nil m more)
    (List.prefix_nil.mp hstart)

/-- Nothing stands in a text that is just a backslash. -/
theorem not_standsAt_backslash {m : Char} (hm : m ≠ '\\') {more front : List Char} :
    ¬ StandsAt (m :: more) ['\\'] front := by
  rintro ⟨hscanned, hstart⟩
  cases hscanned with
  | nil => exact hm (List.cons_prefix_cons.mp hstart).1
  | plain hc => exact hc (List.cons_prefix_cons.mp hstart).1
  | hidden => exact absurd hstart.length_le (by simp)

section Shifts

variable {mark unit text : List Char}

/-- The first place of a mark is moved. -/
theorem Shifts.isFirst (hs : Shifts mark unit text) {front : List Char}
    (h : IsFirst mark text front) : IsFirst mark (unit ++ text) (unit ++ front) := by
  refine ⟨(hs _).mpr ⟨front, rfl, h.1⟩, fun other hother => ?_⟩
  obtain ⟨rest, rfl, hrest⟩ := (hs other).mp hother
  rw [List.length_append, List.length_append]
  exact Nat.add_le_add_left (h.2 rest hrest) _

/-- Where a mark stands nowhere, it still stands nowhere. -/
theorem Shifts.not_standsAt (hs : Shifts mark unit text) (h : ∀ front, ¬ StandsAt mark text front) :
    ∀ front, ¬ StandsAt mark (unit ++ text) front := by
  intro front hfront
  obtain ⟨rest, -, hrest⟩ := (hs front).mp hfront
  exact h rest hrest

/-- What is before all places of a mark stays before them. -/
theorem Shifts.lt_length (hs : Shifts mark unit text) {n : Nat}
    (h : ∀ other, StandsAt mark text other → n < other.length) :
    ∀ other, StandsAt mark (unit ++ text) other → unit.length + n < other.length := by
  intro other hother
  obtain ⟨rest, rfl, hrest⟩ := (hs other).mp hother
  rw [List.length_append]
  exact Nat.add_lt_add_left (h rest hrest) _

end Shifts

/-! ## Where literals end -/

/-- What a literal in three quotes takes of the text behind them. -/
inductive DocReach (quote : Char) (body : List Char) : List Char → Prop
  /-- Everything up to the first three quotes in a row, and these. -/
  | closed {front : List Char} (h : IsFirst [quote, quote, quote] body front) :
    DocReach quote body (front ++ [quote, quote, quote])
  /-- All of the text, if there are no such quotes. -/
  | unclosed (h : ∀ front, ¬ StandsAt [quote, quote, quote] body front) : DocReach quote body body

/-- What a literal on one line takes of the text behind its quote. -/
inductive LineReach (quote : Char) (behind : List Char) : List Char → Prop
  /-- Everything up to the first quote, and this one, if it comes before all line feeds. -/
  | closed {front : List Char} (h : IsFirst [quote] behind front)
    (hline : ∀ other, StandsAt ['\n'] behind other → front.length < other.length) :
    LineReach quote behind (front ++ [quote])
  /-- Everything before the first line feed, if this one comes before all quotes. -/
  | broken {front : List Char} (h : IsFirst ['\n'] behind front)
    (hquote : ∀ other, StandsAt [quote] behind other → front.length < other.length) :
    LineReach quote behind front
  /-- All of the text, if there are neither quotes nor line feeds. -/
  | unclosed (hquote : ∀ front, ¬ StandsAt [quote] behind front)
    (hline : ∀ front, ¬ StandsAt ['\n'] behind front) : LineReach quote behind behind

/-- How far a literal in three quotes reaches is moved. -/
theorem DocReach.shift {quote : Char} {unit body reach : List Char}
    (hs : Shifts [quote, quote, quote] unit body) (h : DocReach quote body reach) :
    DocReach quote (unit ++ body) (unit ++ reach) := by
  cases h with
  | closed h =>
    rw [← List.append_assoc]
    exact .closed (hs.isFirst h)
  | unclosed h => exact .unclosed (hs.not_standsAt h)

/-- How far a literal on one line reaches is moved. -/
theorem LineReach.shift {quote : Char} {unit behind reach : List Char}
    (hs : Shifts [quote] unit behind) (hsLine : Shifts ['\n'] unit behind)
    (h : LineReach quote behind reach) : LineReach quote (unit ++ behind) (unit ++ reach) := by
  cases h with
  | closed h hline =>
    rw [← List.append_assoc]
    refine .closed (hs.isFirst h) ?_
    rw [List.length_append]
    exact hsLine.lt_length hline
  | broken h hquote =>
    refine .broken (hsLine.isFirst h) ?_
    rw [List.length_append]
    exact hs.lt_length hquote
  | unclosed hquote hline => exact .unclosed (hs.not_standsAt hquote) (hsLine.not_standsAt hline)

theorem IsFirst.unique {mark text front other : List Char} (h : IsFirst mark text front)
    (hother : IsFirst mark text other) : front = other := by
  have hfront : front <+: text := (List.prefix_append front mark).trans h.1.2
  have hback : other <+: text := (List.prefix_append other mark).trans hother.1.2
  have hle := h.2 other hother.1
  exact (List.prefix_of_prefix_length_le hfront hback hle).eq_of_length_le (hother.2 front h.1)

/-- A literal in three quotes reaches up to one place. -/
theorem DocReach.unique {quote : Char} {body reach other : List Char}
    (h : DocReach quote body reach) (hother : DocReach quote body other) : reach = other := by
  cases h with
  | closed h =>
    cases hother with
    | closed hother => rw [h.unique hother]
    | unclosed hnone => exact absurd h.1 (hnone _)
  | unclosed hnone =>
    cases hother with
    | closed hother => exact absurd hother.1 (hnone _)
    | unclosed => rfl

/-- A literal on one line reaches up to one place. -/
theorem LineReach.unique {quote : Char} {behind reach other : List Char}
    (h : LineReach quote behind reach) (hother : LineReach quote behind other) : reach = other := by
  cases h with
  | closed h hline =>
    -- closed, broken off by a line feed or open to the end: the first mark tells which
    cases hother with
    | closed hother => rw [h.unique hother]
    | broken hother hquote => exact absurd (hline _ hother.1) (Nat.lt_asymm (hquote _ h.1))
    | unclosed hnone => exact absurd h.1 (hnone _)
  | broken h hquote =>
    cases hother with
    | closed hother hline => exact absurd (hquote _ hother.1) (Nat.lt_asymm (hline _ h.1))
    | broken hother => exact h.unique hother
    | unclosed _ hnone => exact absurd h.1 (hnone _)
  | unclosed hnone hnoLine =>
    cases hother with
    | closed hother => exact absurd hother.1 (hnone _)
    | broken hother => exact absurd hother.1 (hnoLine _)
    | unclosed => rfl

theorem isFirst_nil {mark text : List Char} (h : mark <+: text) : IsFirst mark text [] :=
  ⟨⟨.nil, h⟩, fun _ _ => Nat.zero_le _⟩

/-- A mark that does not stand at the very start stands behind some characters. -/
theorem StandsAt.length_pos {mark text front : List Char} (h : StandsAt mark text front)
    (hnot : ¬ mark <+: text) : 0 < front.length := by
  rw [List.length_pos_iff]
  rintro rfl
  exact hnot h.2

/-- The scanner of characters ends a literal in three quotes where it should. -/
theorem docReach_take {quote : Char} (hquote : quote ≠ '\\') (body : List Char) :
    DocReach quote body (body.take (docLength quote body)) := by
  -- what the scanner passes in one step shifts all the places behind it
  fun_induction docLength quote body with
  | case1 => exact .unclosed fun _ => not_standsAt_nil
  | case2 c rest ih => exact ih.shift (shifts_hidden hquote _ c rest)
  | case3 c rest hescape hclosed =>
    rw [List.isPrefixOf_iff_prefix] at hclosed
    -- the three quotes are here, and belong to the literal
    have htake : (c :: rest).take 3 = [quote, quote, quote] :=
      (List.prefix_iff_eq_take.mp hclosed).symm
    rw [htake]
    exact .closed (isFirst_nil hclosed)
  | case4 c rest hescape hopen ih =>
    rw [List.isPrefixOf_iff_prefix] at hopen
    rcases ne_backslash_or_last hescape with hc | ⟨rfl, rfl⟩
    · exact ih.shift (shifts_plain hc hopen)
    · exact .unclosed fun _ => not_standsAt_backslash hquote

/-- The scanner of characters ends a literal on one line where it should. -/
theorem lineReach_take {quote : Char} (hquote : quote ≠ '\\') (hfeed : quote ≠ '\n')
    (behind : List Char) : LineReach quote behind (behind.take (lineLength quote behind)) := by
  fun_induction lineLength quote behind with
  | case1 => exact .unclosed (fun _ => not_standsAt_nil) fun _ => not_standsAt_nil
  -- a character behind a backslash is neither the quote nor a line feed
  | case2 c rest ih =>
    exact ih.shift (shifts_hidden hquote _ c rest) (shifts_hidden (by decide) _ c rest)
  | case3 rest hescape =>
    -- a mark that comes first leaves no room for the other one before it
    have hnot : ¬ [quote] <+: '\n' :: rest := fun h => hfeed (List.cons_prefix_cons.mp h).1
    exact .broken (isFirst_nil (List.prefix_append ['\n'] rest)) fun _ h => h.length_pos hnot
  | case4 rest hescape hline =>
    have hnot : ¬ ['\n'] <+: quote :: rest := fun h => hline (List.cons_prefix_cons.mp h).1.symm
    exact .closed (isFirst_nil (List.prefix_append [quote] rest)) fun _ h => h.length_pos hnot
  | case5 c rest hescape hline hother ih =>
    rcases ne_backslash_or_last hescape with hc | ⟨rfl, rfl⟩
    · exact ih.shift
        (shifts_plain hc fun h => hother (List.cons_prefix_cons.mp h).1.symm)
        (shifts_plain hc fun h => hline (List.cons_prefix_cons.mp h).1.symm)
    · exact .unclosed (fun _ => not_standsAt_backslash hquote)
        fun _ => not_standsAt_backslash (by decide)

/-! ## Extents -/

/-- The form of a literal, and what it takes of the text behind the quote that opens it. -/
inductive Extent (quote : Char) (behind : List Char) : StringForm → List Char → Prop
  /-- Two more quotes make it a literal in three quotes. -/
  | doc {body reach : List Char} (hbehind : behind = quote :: quote :: body)
    (h : DocReach quote body reach) : Extent quote behind .doc (quote :: quote :: reach)
  /-- Otherwise it is one on one line. -/
  | line {reach : List Char} (hbehind : ¬ [quote, quote] <+: behind)
    (h : LineReach quote behind reach) : Extent quote behind (quoteForm quote) reach

/-- The text behind the quote settles the form of the literal and what it takes. -/
theorem Extent.unique {quote : Char} {behind reach other : List Char} {form otherForm : StringForm}
    (h : Extent quote behind form reach) (hother : Extent quote behind otherForm other) :
    form = otherForm ∧ reach = other := by
  cases h with
  | doc hbehind h =>
    cases hother with
    | doc hagain hother =>
      obtain ⟨-, rfl⟩ := List.cons.inj (List.cons.inj (hbehind.symm.trans hagain)).2
      exact ⟨rfl, congrArg ([quote, quote] ++ ·) (h.unique hother)⟩
    | line hnot => exact absurd ⟨_, hbehind.symm⟩ hnot
  | line hnot h =>
    cases hother with
    | doc hbehind => exact absurd ⟨_, hbehind.symm⟩ hnot
    | line _ hother => exact ⟨rfl, h.unique hother⟩

/-- The scanner reads a literal to its extent. -/
theorem extent_take {quote : Char} (hquote : quote = '\'' ∨ quote = '"') (behind : List Char) :
    Extent quote behind ((quoteForm quote).extent quote behind).1
      (behind.take ((quoteForm quote).extent quote behind).2) := by
  have hbackslash : quote ≠ '\\' := by
    rcases hquote with rfl | rfl <;> decide
  have hfeed : quote ≠ '\n' := by
    rcases hquote with rfl | rfl <;> decide
  by_cases hdoc : [quote, quote] <+: behind
  · obtain ⟨body, rfl⟩ := hdoc
    rw [extent_of_doc]
    exact .doc rfl (docReach_take hbackslash body)
  · rw [extent_of_line hdoc]
    exact .line hdoc (lineReach_take hbackslash hfeed behind)

/-- The scanner of characters gives just this form and just this extent. -/
theorem extent_iff {quote : Char} (hquote : quote = '\'' ∨ quote = '"') {behind reach : List Char}
    {form : StringForm} :
    Extent quote behind form reach ↔
      form = ((quoteForm quote).extent quote behind).1 ∧
        reach = behind.take ((quoteForm quote).extent quote behind).2 := by
  constructor
  · intro h
    exact h.unique (extent_take hquote behind)
  · rintro ⟨rfl, rfl⟩
    exact extent_take hquote behind

end Tinct.Lexer.Python
