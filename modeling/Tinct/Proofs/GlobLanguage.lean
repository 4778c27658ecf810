import Mathlib.Data.List.Forall2
import Tinct.Lexer.Glob

/-!
# The names that a glob describes

A glob describes the names that can be cut into pieces, one for each of its characters: any run for
a star, any one character for a question mark, and the character itself for every other one.  The
table of the ends that are described is filled from the end of the glob, and each row of it is right
if the row before it is, so the search tries all cuts without going back.

## Key results

- `spells_cons_iff`: the first piece of a name, and what is spelled behind it
- `tells_describedEnds`: the table tells of each end of a name whether it is spelled
- `describes_iff`: a glob describes exactly the names that it spells
-/

namespace Tinct.Glob

variable {g : Char} {glob name : List Char} {ends : List Bool} {P : List Char → Prop}

/-! ## Spelling -/

/-- The pieces of a name that a character of a glob stands for. -/
def StandsFor (g : Char) (piece : List Char) : Prop :=
  if g = '*' then '\n' ∉ piece
  else if g = '?' then ∃ c, c ≠ '\n' ∧ piece = [c]
  else piece = [g]

/-- A name is spelled by a glob if it can be cut into pieces, for which the characters of the glob
stand in order. -/
def Spells (glob name : List Char) : Prop :=
  ∃ pieces, List.Forall₂ StandsFor glob pieces ∧ pieces.flatten = name

theorem standsFor_star_iff {piece : List Char} : StandsFor '*' piece ↔ '\n' ∉ piece := by
  rw [StandsFor, if_pos rfl]

/-- A character other than the star stands for those that it accepts. -/
theorem standsFor_iff_of_ne_star (hg : g ≠ '*') {piece : List Char} :
    StandsFor g piece ↔ ∃ c, accepts g c = true ∧ piece = [c] := by
  rw [StandsFor, if_neg hg]
  by_cases hmark : g = '?'
  · simp [hmark, accepts]
  · simp [hmark, accepts]

@[simp] theorem spells_nil_iff : Spells [] name ↔ name = [] := by
  simp [Spells, eq_comm]

/-- A name that a glob spells starts with a piece for the first character of the glob. -/
theorem spells_cons_iff :
    Spells (g :: glob) name ↔
      ∃ piece rest, StandsFor g piece ∧ Spells glob rest ∧ name = piece ++ rest := by
  simp only [Spells, List.forall₂_cons_left_iff]
  constructor
  · intro h
    obtain ⟨_, ⟨piece, pieces, hpiece, hpieces, rfl⟩, rfl⟩ := h
    exact ⟨piece, pieces.flatten, hpiece, ⟨pieces, hpieces, rfl⟩, List.flatten_cons⟩
  · intro h
    obtain ⟨piece, _, hpiece, ⟨pieces, hpieces, rfl⟩, rfl⟩ := h
    exact ⟨piece :: pieces, ⟨piece, pieces, hpiece, hpieces, rfl⟩, List.flatten_cons⟩

/-- A star and the characters behind it spell any run and what those spell. -/
theorem spells_star_iff :
    Spells ('*' :: glob) name ↔
      ∃ run rest, '\n' ∉ run ∧ Spells glob rest ∧ name = run ++ rest := by
  simp only [spells_cons_iff, standsFor_star_iff]

/-- Another character spells one that it accepts in front of the rest. -/
theorem spells_cons_iff_of_ne_star (hg : g ≠ '*') :
    Spells (g :: glob) name ↔
      ∃ c rest, accepts g c = true ∧ Spells glob rest ∧ name = c :: rest := by
  simp only [spells_cons_iff, standsFor_iff_of_ne_star hg]
  constructor
  · intro h
    obtain ⟨_, rest, ⟨c, hc, rfl⟩, hrest, rfl⟩ := h
    exact ⟨c, rest, hc, hrest, rfl⟩
  · intro h
    obtain ⟨c, rest, hc, hrest, rfl⟩ := h
    exact ⟨[c], rest, ⟨c, hc, rfl⟩, hrest, rfl⟩

/-! ## Rows of the table -/

/-- A row tells of each end of a name, from the whole name to the empty one, whether it has a
property. -/
def Tells (P : List Char → Prop) (name : List Char) (ends : List Bool) : Prop :=
  List.Forall₂ (fun rest told => told = true ↔ P rest) name.tails ends

theorem tells_nil_iff : Tells P [] ends ↔ ∃ told, (told = true ↔ P []) ∧ ends = [told] := by
  simp [Tells, List.forall₂_cons_left_iff]

/-- The first entry is about the whole name, the others are the row of the name behind its first
    character. -/
theorem tells_cons_iff {c : Char} :
    Tells P (c :: name) ends ↔
      ∃ told later, (told = true ↔ P (c :: name)) ∧ Tells P name later ∧ ends = told :: later := by
  rw [Tells, List.tails, List.forall₂_cons_left_iff]
  rfl

/-- The first entry of a row is about the whole name. -/
theorem Tells.headD_iff (h : Tells P name ends) : ends.headD false = true ↔ P name := by
  cases name with
  | nil =>
    obtain ⟨told, htold, rfl⟩ := tells_nil_iff.mp h
    exact htold
  | cons c name =>
    obtain ⟨told, later, htold, -, rfl⟩ := tells_cons_iff.mp h
    exact htold

/-- The ends of a name that start with a character that the given one of the glob accepts. -/
theorem tells_behindChar (h : Tells P name ends) (g : Char) :
    Tells (fun text => ∃ c rest, accepts g c = true ∧ P rest ∧ text = c :: rest) name
      (behindChar g name ends) := by
  induction name generalizing ends with
  | nil =>
    -- the empty end does not start with a character
    rw [tells_nil_iff]
    exact ⟨false, by simp, rfl⟩
  | cons c name ih =>
    obtain ⟨told, later, -, hlater, rfl⟩ := tells_cons_iff.mp h
    refine tells_cons_iff.mpr ⟨_, _, ?_, ih hlater, rfl⟩
    -- what is behind the first character is told at the head of the later entries
    rw [Bool.and_eq_true, hlater.headD_iff]
    simp

/-- A run in front of an end is empty, or it starts with a character and goes on behind it. -/
theorem exists_run_cons_iff {c : Char} :
    (∃ run rest, '\n' ∉ run ∧ P rest ∧ c :: name = run ++ rest) ↔
      P (c :: name) ∨ c ≠ '\n' ∧ ∃ run rest, '\n' ∉ run ∧ P rest ∧ name = run ++ rest := by
  constructor
  · intro h
    obtain ⟨run, rest, hrun, hrest, hsplit⟩ := h
    cases run with
    | nil => exact .inl (hsplit ▸ hrest)
    | cons d run =>
      obtain ⟨rfl, rfl⟩ := List.cons.inj hsplit
      rw [List.mem_cons, not_or] at hrun
      exact .inr ⟨Ne.symm hrun.1, run, rest, hrun.2, hrest, rfl⟩
  · intro h
    rcases h with hhere | ⟨hc, run, rest, hrun, hrest, rfl⟩
    · exact ⟨[], c :: name, List.not_mem_nil, hhere, rfl⟩
    · exact ⟨c :: run, rest, by simp [hrun, Ne.symm hc], hrest, rfl⟩

/-- The ends of a name that start with any run, which may be empty. -/
theorem tells_behindStar (h : Tells P name ends) :
    Tells (fun text => ∃ run rest, '\n' ∉ run ∧ P rest ∧ text = run ++ rest) name
      (behindStar name ends) := by
  induction name generalizing ends with
  | nil =>
    obtain ⟨told, htold, rfl⟩ := tells_nil_iff.mp h
    -- the only run in front of the empty end is the empty one
    refine tells_nil_iff.mpr ⟨told, ?_, rfl⟩
    rw [htold]
    simp
  | cons c name ih =>
    obtain ⟨told, later, htold, hlater, rfl⟩ := tells_cons_iff.mp h
    refine tells_cons_iff.mpr ⟨_, _, ?_, ih hlater, rfl⟩
    -- a run that goes on behind the first character is told in the row itself, one entry later
    rw [exists_run_cons_iff, Bool.or_eq_true, Bool.and_eq_true, htold, (ih hlater).headD_iff,
      decide_eq_true_iff]

/-- A row tells of every property that says the same. -/
theorem Tells.congr {Q : List Char → Prop} (h : Tells P name ends) (hPQ : ∀ rest, P rest ↔ Q rest) :
    Tells Q name ends :=
  h.imp fun rest _ htold => htold.trans (hPQ rest)

/-- The table tells of each end of a name whether the glob spells it. -/
theorem tells_describedEnds (glob name : List Char) :
    Tells (Spells glob) name (describedEnds name glob) := by
  induction glob with
  | nil =>
    -- the empty glob spells the empty name only, at the end of the row
    rw [describedEnds]
    induction name with
    | nil => exact tells_nil_iff.mpr ⟨true, by simp, rfl⟩
    | cons c name ih => exact tells_cons_iff.mpr ⟨false, _, by simp, ih, rfl⟩
  | cons g glob ih =>
    rw [describedEnds]
    by_cases hg : g = '*'
    · subst hg
      exact (tells_behindStar ih).congr fun rest => spells_star_iff.symm
    · rw [if_neg hg]
      exact (tells_behindChar ih g).congr fun rest => (spells_cons_iff_of_ne_star hg).symm

/-- A glob describes exactly the names that it spells. -/
theorem describes_iff {glob name : String} :
    describes glob name = true ↔ Spells glob.toList name.toList :=
  (tells_describedEnds glob.toList name.toList).headD_iff

end Tinct.Glob
