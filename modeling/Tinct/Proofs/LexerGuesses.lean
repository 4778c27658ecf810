import Mathlib.Data.List.Perm.Basic
import Tinct.Proofs.LexerRequests

/-!
# Which lexer a text goes to

A text without a name goes to the lexer that is most confident about it, and of several equally
confident ones to the one whose name comes first.  The lexers are gone through in the order of their
names, so it does not matter in which order they were registered.

## Key results

- `isFirst_isMostConfident_iff`: the first of the most confident lexers, compared with each other one
- `exists_isMostConfident_iff`: there is a most confident lexer as soon as one has any confidence
- `registered_eq_of_isCurrent_iff`: the collection knows nothing of the order of the registrations
- `guess_iff`: which lexer is guessed, when none is, and that no order plays a role
-/

namespace Tinct.Lexers

variable {history other : List Lexer} {lexer : Lexer} {source : String}

/-! ## The first of the most confident lexers -/

/-- The lexer has some confidence in a text, no other one has more, and those that have as much come
behind it by name. -/
structure Leads (history : List Lexer) (source : String) (lexer : Lexer) : Prop where
  isCurrent : IsCurrent history lexer
  pos : .zero < lexer.confidence source
  not_lt : ∀ rival, IsCurrent history rival → ¬ lexer.confidence source < rival.confidence source
  before : ∀ rival, IsCurrent history rival →
    (rival.confidence source).units = (lexer.confidence source).units →
    rival = lexer ∨ utf8Bytes lexer.name < utf8Bytes rival.name

/-- To come first among the most confident ones is to lead. -/
theorem isFirst_isMostConfident_iff :
    IsFirst history (IsMostConfident history source) lexer ↔ Leads history source lexer := by
  constructor
  · intro h
    refine ⟨h.isCurrent, h.holds.pos, h.holds.not_lt, fun rival hrival hsame => ?_⟩
    -- with as much confidence a rival is most confident, too
    refine h.before rival hrival ⟨?_, fun third hthird => ?_⟩
    · have hpos := h.holds.pos
      rw [Score.lt_iff] at hpos ⊢
      omega
    · have hnot := h.holds.not_lt third hthird
      rw [Score.lt_iff] at hnot ⊢
      omega
  · intro h
    refine ⟨h.isCurrent, ⟨h.pos, h.not_lt⟩, fun rival hrival hbest => ?_⟩
    -- neither of two most confident lexers has more confidence than the other
    refine h.before rival hrival ?_
    have hle := h.not_lt rival hrival
    have hge := hbest.not_lt lexer h.isCurrent
    rw [Score.lt_iff] at hle hge
    omega

/-- There is a most confident lexer as soon as one has any confidence. -/
theorem exists_isMostConfident_iff :
    (∃ lexer, IsCurrent history lexer ∧ IsMostConfident history source lexer) ↔
      ∃ lexer, IsCurrent history lexer ∧ .zero < lexer.confidence source := by
  constructor
  · intro h
    obtain ⟨lexer, hcurrent, hbest⟩ := h
    exact ⟨lexer, hcurrent, hbest.pos⟩
  · intro h
    obtain ⟨lexer, hcurrent, hpos⟩ := h
    let lexers := (registered history).byName.values
    have hmem : lexer ∈ lexers := mem_values_registered.mpr hcurrent
    have hbest := isBest_foldl source lexers
    cases hfold : lexers.foldl (moreConfident source) none with
    | none =>
      -- the search passes over lexers without confidence only
      rw [hfold] at hbest
      exact absurd hpos (hbest lexer hmem)
    | some found =>
      have hfound : lexers.find? (fun l => LeadsOn source lexers l) = some found.1 := by
        rw [find?_leadsOn, hfold]
        rfl
      have hleads : LeadsOn source lexers found.1 := by simpa using List.find?_some hfound
      exact ⟨found.1, mem_values_registered.mp (List.mem_of_find?_eq_some hfound),
        leadsOn_registered_iff.mp hleads⟩

/-! ## The order of registrations -/

/-- The last lexer that was registered under a name is the current one of this name. -/
theorem lastRegistered_eq_some_iff {name : String} :
    lastRegistered history name = some lexer ↔ IsCurrent history lexer ∧ lexer.name = name := by
  constructor
  · intro h
    exact ⟨isCurrent_of_lastRegistered h, (mem_of_lastRegistered h).2⟩
  · intro h
    obtain ⟨hcurrent, rfl⟩ := h
    exact hcurrent

/-- Runs that leave the same lexers lead to the same collection. -/
theorem registered_eq_of_isCurrent_iff
    (h : ∀ lexer, IsCurrent other lexer ↔ IsCurrent history lexer) :
    registered other = registered history := by
  refine registered_eq_of_lastRegistered fun name => Option.ext fun lexer => ?_
  rw [lastRegistered_eq_some_iff, lastRegistered_eq_some_iff, h]

/-- Where no name is registered twice, every registration counts. -/
theorem isCurrent_iff_mem (hnodup : (history.map (·.name)).Nodup) :
    IsCurrent history lexer ↔ lexer ∈ history := by
  constructor
  · intro h
    exact (mem_of_lastRegistered h).1
  · intro h
    obtain ⟨last, hlast⟩ := exists_lastRegistered_iff.mpr ⟨lexer, h, rfl⟩
    obtain ⟨hmem, hname⟩ := mem_of_lastRegistered hlast
    -- the last registration of the name is the only one
    obtain rfl := List.inj_on_of_nodup_map hnodup hmem h hname
    exact hlast

/-- Then every list of the registrations with their names is a table of the collection. -/
theorem tabulates_of_perm {table : List (String × Lexer)} (hnodup : (history.map (·.name)).Nodup)
    (hperm : table.Perm (history.map fun lexer => (lexer.name, lexer))) :
    Tabulates table history where
  nodup := by
    have hnames := hperm.map (·.1)
    rw [List.map_map] at hnames
    exact hnames.nodup_iff.mpr hnodup
  mem_iff name lexer := by
    rw [hperm.mem_iff, lastRegistered_eq_some_iff, isCurrent_iff_mem hnodup, List.mem_map]
    constructor
    · intro h
      obtain ⟨found, hmem, hfound⟩ := h
      obtain ⟨hname, rfl⟩ := Prod.mk.inj hfound
      exact ⟨hmem, hname⟩
    · intro h
      obtain ⟨hmem, rfl⟩ := h
      exact ⟨lexer, hmem, rfl⟩

/-! ## Every text -/

/-- A text goes to a lexer exactly if the lexer leads on it, and to none exactly if no lexer has any
    confidence in it.  Runs of registrations that leave the same lexers give the same answer, in
    particular a run without repeated names in any order; and so does going through a table of the
    lexers in the order of the names, however the table is ordered itself. -/
theorem guess_iff (history : List Lexer) (source : String) :
    (∀ lexer, (registered history).guess source = .ok lexer ↔ Leads history source lexer) ∧
    (∀ e, (registered history).guess source = .error e ↔ e = .noLexer "<source text>" ∧
      ∀ lexer, IsCurrent history lexer → ¬ .zero < lexer.confidence source) ∧
    (∀ other, (∀ lexer, IsCurrent other lexer ↔ IsCurrent history lexer) →
      (registered other).guess source = (registered history).guess source) ∧
    (∀ other, other.Perm history → (history.map (·.name)).Nodup →
      (registered other).guess source = (registered history).guess source) ∧
    ∀ table, Tabulates table history → ∀ lexer,
      (((table.mergeSort nameLe).map (·.2)).foldl (moreConfident source) none).map (·.1) =
        some lexer ↔ Leads history source lexer := by
  have hanswers := answers_guess history source
  refine ⟨fun lexer => ?_, fun e => ?_, fun other h => ?_, fun other hperm hnodup => ?_,
    fun table htable lexer => ?_⟩
  · rw [hanswers.ok_iff, isFirst_isMostConfident_iff]
  · rw [hanswers.error_iff, ← not_exists, exists_isFirst_iff, exists_isMostConfident_iff]
    simp only [not_exists, not_and]
  · -- the collection holds the current lexers, so it is the same one
    rw [registered_eq_of_isCurrent_iff h]
  · have hother : (other.map (·.name)).Nodup := (hperm.map _).nodup_iff.mpr hnodup
    rw [registered_eq_of_isCurrent_iff fun lexer => ?_]
    rw [isCurrent_iff_mem hother, isCurrent_iff_mem hnodup, hperm.mem_iff]
  · -- sorted, the table is the list of entries that the collection holds
    rw [entries_of_tabulates htable, ← SortedMap.values, ← find?_leadsOn, find?_values_registered,
      ← isFirst_isMostConfident_iff]
    refine isFirst_congr fun l => ?_
    rw [decide_eq_true_eq, leadsOn_registered_iff]

/-- A lexer with the same confidence in every text, in hundredths. -/
def scored (name : String) (hundredths : Nat) : Lexer :=
  { name, confidence := fun _ => .hundredths hundredths, fragments := fun _ => [] }

/-- Three lexers, of which two have the same confidence. -/
def tied : List Lexer := [scored "c" 40, scored "b" 90, scored "a" 90]

/-- Of two lexers with the same confidence the one whose name comes first leads, whichever was
    registered first, and a lexer without confidence is not guessed. -/
theorem guess_iff_of_tie :
    let table := (tied.map fun lexer => (lexer.name, lexer)).reverse
    tied.reverse.Perm tied ∧ (tied.map (·.name)).Nodup ∧ Tabulates table tied ∧
      (∀ lexer, IsCurrent tied.reverse lexer ↔ IsCurrent tied lexer) ∧
      Leads tied "x" (scored "a" 90) ∧
      (registered tied.reverse).guess "x" = .ok (scored "a" 90) ∧
      (((table.mergeSort nameLe).map (·.2)).foldl (moreConfident "x") none).map (·.1) =
        some (scored "a" 90) ∧
      ∀ lexer, IsCurrent [scored "d" 0] lexer → ¬ .zero < lexer.confidence "x" := by
  intro table
  have hperm : tied.reverse.Perm tied := List.reverse_perm _
  have hnodup : (tied.map (·.name)).Nodup := by decide
  have hnodup' : (tied.reverse.map (·.name)).Nodup := by decide
  have htable : Tabulates table tied := tabulates_of_perm hnodup (List.reverse_perm _)
  have hsame : ∀ lexer, IsCurrent tied.reverse lexer ↔ IsCurrent tied lexer := by
    intro lexer
    rw [isCurrent_iff_mem hnodup, isCurrent_iff_mem hnodup', List.mem_reverse]
  obtain ⟨hok, -, hcurrent, hreorder, hsorted⟩ := guess_iff tied "x"
  have hguess : (registered tied).guess "x" = .ok (scored "a" 90) := rfl
  have hleads : Leads tied "x" (scored "a" 90) := (hok _).mp hguess
  have hnone : (registered [scored "d" 0]).guess "x" = .error (.noLexer "<source text>") := rfl
  refine ⟨hperm, hnodup, htable, hsame, hleads, ?_, (hsorted table htable _).mpr hleads, ?_⟩
  · rw [hreorder _ hperm hnodup, ← hcurrent _ hsame, hcurrent _ hsame, hguess]
  · exact (((guess_iff _ "x").2.1 _).mp hnone).2

end Tinct.Lexers
