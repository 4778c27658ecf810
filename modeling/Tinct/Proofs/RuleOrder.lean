import Tinct.Proofs.LongestMatch

/-!
# The order of rules

Of the rules that describe the longest match the first one counts, so the place of a rule in the
list is its priority.  The order matters only for a text that rules of two kinds describe, and there
only which of the two kinds comes first.  Whether a kind has one rule or several, and where these
stand among each other, does not matter.

## Key results

- `eq_or_not_of_selected`: a kind that is selected goes before no other kind of the text
- `selected_eq_of_sameTexts`: what the rules select, in any two orders that put the kinds with
  common texts in the same order
- `lexemes_congr`: the lexemes of a text are settled by what the rules select
-/

namespace Tinct.Grammar

variable {κ : Type} {rules others : List (Rule κ)} {w : List Char}

/-! ## Kinds of a text -/

/-- Some rule of a kind describes a text. -/
def Describes (rules : List (Rule κ)) (kind : κ) (w : List Char) : Prop :=
  ∃ r ∈ rules, r.kind = kind ∧ r.pattern.Matches w

instance [DecidableEq κ] (rules : List (Rule κ)) (kind : κ) (w : List Char) :
    Decidable (Describes rules kind w) :=
  inferInstanceAs (Decidable (∃ r ∈ rules, r.kind = kind ∧ r.pattern.Matches w))

/-- Two lists of rules describe the same texts for every kind, in whatever order and with however
    many rules for a kind. -/
def SameTexts (rules others : List (Rule κ)) : Prop :=
  ∀ kind w, Describes rules kind w ↔ Describes others kind w

/-- No rule stands behind one of a kind that its own kind goes before. -/
def Sorts (goesBefore : κ → κ → Prop) (rules : List (Rule κ)) : Prop :=
  rules.Pairwise fun r later => ¬ goesBefore later.kind r.kind

instance (goesBefore : κ → κ → Prop) [DecidableRel goesBefore] (rules : List (Rule κ)) :
    Decidable (Sorts goesBefore rules) :=
  inferInstanceAs (Decidable (rules.Pairwise fun r later => ¬ goesBefore later.kind r.kind))

/-- Of two different kinds that describe the same text, one goes before the other. -/
def Unambiguous (goesBefore : κ → κ → Prop) (rules : List (Rule κ)) : Prop :=
  ∀ w kind other, Describes rules kind w → Describes rules other w →
    kind = other ∨ goesBefore kind other ∨ goesBefore other kind

/-- The kind to which a character belongs in a list of the characters that only texts of one kind
    start with. -/
def kindByStart? (starts : List (String × κ)) (c : Char) : Option κ :=
  (starts.find? fun e => e.1.toList.contains c).map (·.2)

/-- A class without the listed characters belongs to no kind of the list. -/
theorem kindByStart?_eq_none {starts : List (String × κ)} {p : Char → Bool}
    (hp : (starts.all fun e => !e.1.toList.any p) = true) {c : Char} (hc : p c = true) :
    kindByStart? starts c = none := by
  rw [kindByStart?, Option.map_eq_none_iff, List.find?_eq_none]
  intro e he hmem
  have hany : e.1.toList.any p = true := List.any_eq_true.mpr ⟨c, List.contains_iff_mem.mp hmem, hc⟩
  have hnot := List.all_eq_true.mp hp e he
  rw [hany] at hnot
  cases hnot

/-- Where no kind has to go before another one, every order will do. -/
theorem sorts_of_false (rules : List (Rule κ)) : Sorts (fun _ _ => False) rules :=
  List.pairwise_of_forall fun _ _ => not_false

/-- Rules in another order describe the same texts. -/
theorem sameTexts_of_perm (h : rules.Perm others) : SameTexts rules others := by
  intro kind w
  simp only [Describes, h.mem_iff]

/-- No rule is selected for a text of no kind. -/
theorem selected_eq_none_iff_describes :
    selected rules w = none ↔ ∀ kind, ¬ Describes rules kind w := by
  rw [selected_eq_none_iff]
  constructor
  · rintro h kind ⟨r, hr, -, hmatches⟩
    exact h r hr hmatches
  · intro h r hr hmatches
    exact h r.kind ⟨r, hr, rfl, hmatches⟩

theorem describes_of_selected {kind : κ} (h : selected rules w = some kind) :
    Describes rules kind w :=
  exists_rule_of_selected h

/-- The kind that is selected for a text comes first: no other kind of the text goes before it. -/
theorem eq_or_not_of_selected {goesBefore : κ → κ → Prop} (hsorts : Sorts goesBefore rules)
    {kind other : κ} (h : selected rules w = some kind) (hother : Describes rules other w) :
    other = kind ∨ ¬ goesBefore other kind := by
  obtain ⟨r, hr, rfl⟩ := Option.map_eq_some_iff.mp h
  obtain ⟨-, before, after, rfl, hbefore⟩ := List.find?_eq_some_iff_append.mp hr
  obtain ⟨later, hlater, rfl, hmatches⟩ := hother
  have haccepts : later.pattern.accepts w = true := Pattern.accepts_iff.mpr hmatches
  rcases List.mem_append.mp hlater with hmem | hmem
  · -- what stands before the first match is none
    have hnot := hbefore later hmem
    rw [haccepts] at hnot
    cases hnot
  · rcases List.mem_cons.mp hmem with rfl | hmem
    · exact .inl rfl
    · -- what stands behind it does not go before it
      have hbehind := (List.pairwise_append.mp hsorts).2.1
      exact .inr ((List.pairwise_cons.mp hbehind).1 later hmem)

/-- Rules for the same texts select the same kinds in two orders, if the kinds with a common text
    are in the same order in both of them. -/
theorem selected_eq_of_sameTexts {goesBefore : κ → κ → Prop} (hsame : SameTexts rules others)
    (hrules : Sorts goesBefore rules) (hothers : Sorts goesBefore others)
    (hkinds : Unambiguous goesBefore others) (w : List Char) :
    selected rules w = selected others w := by
  cases hselected : selected rules w with
  | none =>
    symm
    rw [selected_eq_none_iff_describes] at hselected ⊢
    exact fun kind => mt (hsame kind w).mpr (hselected kind)
  | some kind =>
    have hkind : Describes others kind w := (hsame kind w).mp (describes_of_selected hselected)
    cases hagain : selected others w with
    | none => exact absurd hkind (selected_eq_none_iff_describes.mp hagain kind)
    | some other =>
      have hother : Describes others other w := describes_of_selected hagain
      -- of two kinds of the text one goes before the other, but then the later one is not selected
      rcases hkinds w kind other hkind hother with rfl | hbefore | hbefore
      · rfl
      · rcases eq_or_not_of_selected hothers hagain hkind with rfl | hnot
        · rfl
        · exact absurd hbefore hnot
      · rcases eq_or_not_of_selected hrules hselected ((hsame other w).mpr hother) with rfl | hnot
        · rfl
        · exact absurd hbefore hnot

/-! ## Lexemes -/

section Congruence

variable {g g' : Grammar κ}

/-- Rules that select alike describe the same texts. -/
private theorem not_matches_iff_of_selected
    (hselected : ∀ w, selected g.rules w = selected g'.rules w) (w : List Char) :
    (∀ r ∈ g.rules, ¬ r.pattern.Matches w) ↔ ∀ r ∈ g'.rules, ¬ r.pattern.Matches w := by
  rw [← selected_eq_none_iff, ← selected_eq_none_iff, hselected w]

/-- The next lexeme of a text is settled by what the rules select and how far they reach. -/
theorem Next.congr (hselected : ∀ w, selected g.rules w = selected g'.rules w)
    (hextend : g.extend = g'.extend) {text : List Char} {l : Lexeme κ} (h : Next g text l) :
    Next g' text l := by
  have hnone := not_matches_iff_of_selected hselected
  cases h with
  | unknown hcons hunrecognized =>
    refine .unknown hcons fun r hr w hne hpre => ?_
    exact (hnone w).mp (fun r hr => hunrecognized r hr w hne hpre) r hr
  | longest hsplit hne hfound hmaximal =>
    rw [hextend]
    refine .longest hsplit hne (hselected _ ▸ hfound) fun r hr w hpre hlen => ?_
    exact (hnone w).mp (fun r hr => hmaximal r hr w hpre hlen) r hr

/-- The lexemes of a text are settled by what the rules select and how far they reach. -/
theorem lexemes_congr (hselected : ∀ w, selected g.rules w = selected g'.rules w)
    (hextend : g.extend = g'.extend) (text : List Char) : g.lexemes text = g'.lexemes text := by
  -- both grammars find the same lexeme at the start of every text that is left
  generalize hlexemes : g.lexemes text = lexemes
  induction lexemes generalizing text with
  | nil =>
    have htext := g.lexemes_text text
    rw [hlexemes, List.flatMap_nil] at htext
    rw [← htext, Grammar.lexemes]
  | cons l after ih =>
    obtain ⟨hnext, rest, rfl, hafter⟩ := lexemes_eq_cons hlexemes
    rw [lexemes_of_next (hnext.congr hselected hextend), ih rest hafter.symm]

end Congruence

/-- Rules for the same texts give the same lexemes in two orders, if the kinds with a common text
    are in the same order in both of them. -/
theorem lexemes_eq_of_sameTexts {goesBefore : κ → κ → Prop} (hsame : SameTexts rules others)
    (hrules : Sorts goesBefore rules) (hothers : Sorts goesBefore others)
    (hkinds : Unambiguous goesBefore others) (extend : κ → List Char → List Char → κ × Nat)
    (text : List Char) : lexemes ⟨rules, extend⟩ text = lexemes ⟨others, extend⟩ text := by
  apply lexemes_congr
  · exact selected_eq_of_sameTexts hsame hrules hothers hkinds
  · rfl

end Tinct.Grammar
