import Tinct.Pattern

/-!
# Matching one character at a time

The pattern `after c p` describes exactly the texts that follow `c` in the texts of `p`, and
`acceptsEmpty` decides whether a pattern describes the empty text.  So matching one character at
a time decides the texts that a pattern describes.

## Key results

- `matches_after_iff`: what is left of a pattern after a character
- `accepts_iff`: `accepts` decides `Matches`
- `allows_of_mem`: a text holds only characters that its pattern allows somewhere
-/

namespace Tinct.Pattern

variable {p q : Pattern} {s : List Char} {c : Char}

/-! ## The texts of each form of pattern -/

@[simp] theorem not_matches_never (s : List Char) : ¬ Matches never s := by
  intro h
  cases h

@[simp] theorem matches_nothing_iff : Matches nothing s ↔ s = [] := by
  constructor
  · intro h
    cases h
    rfl
  · intro h
    subst h
    exact .nothing

/-- The pattern of one character matches those that it accepts. -/
theorem matches_one_iff {accepts : Char → Bool} :
    Matches (one accepts) s ↔ ∃ c, accepts c = true ∧ s = [c] := by
  constructor
  · intro h
    cases h with
    | one hc => exact ⟨_, hc, rfl⟩
  · intro h
    obtain ⟨c, hc, rfl⟩ := h
    exact .one hc

/-- A sequence matches the texts that can be parted into one for each of its patterns. -/
theorem matches_seq_iff :
    Matches (seq p q) s ↔ ∃ u v, Matches p u ∧ Matches q v ∧ s = u ++ v := by
  constructor
  · intro h
    cases h with
    | seq hp hq => exact ⟨_, _, hp, hq, rfl⟩
  · intro h
    obtain ⟨u, v, hp, hq, rfl⟩ := h
    exact .seq hp hq

/-- An alternative matches the texts of both patterns. -/
theorem matches_either_iff : Matches (either p q) s ↔ Matches p s ∨ Matches q s := by
  constructor
  · intro h
    cases h with
    | left hp => exact .inl hp
    | right hq => exact .inr hq
  · intro h
    rcases h with hp | hq
    · exact .left hp
    · exact .right hq

/-- A text of repetitions that is not empty starts with a repetition that is not empty. -/
theorem matches_many_cons_iff :
    Matches (many p) (c :: s) ↔
      ∃ u v, Matches p (c :: u) ∧ Matches (many p) v ∧ s = u ++ v := by
  constructor
  · intro h
    -- the induction is on the match, and passes over empty repetitions
    generalize hp : many p = r at h
    generalize ht : c :: s = t at h
    induction h with
    | @more p' u v hu hv _ ihv =>
      obtain rfl := Pattern.many.inj hp
      cases u with
      | nil => exact ihv hp ht
      | cons d u =>
        obtain ⟨rfl, rfl⟩ := List.cons.inj ht
        exact ⟨u, v, hu, hv, rfl⟩
    | done => cases ht
    | _ => cases hp
  · intro h
    obtain ⟨u, v, hu, hv, rfl⟩ := h
    exact .more hu hv

/-- Repetitions behind repetitions are repetitions. -/
theorem matches_many_append {t : List Char} (hs : Matches (many p) s) (ht : Matches (many p) t) :
    Matches (many p) (s ++ t) := by
  generalize hq : many p = q at hs
  induction hs with
  | done => exact hq ▸ ht
  | more hu _ _ ih =>
    obtain rfl := Pattern.many.inj hq
    rw [List.append_assoc]
    exact .more hu (ih rfl)
  | _ => cases hq

/-- Repetitions of a pattern are repetitions of any pattern that covers it with repetitions. -/
theorem matches_many_of_forall (h : ∀ u, Matches p u → Matches (many q) u)
    (hs : Matches (many p) s) : Matches (many q) s := by
  generalize hr : many p = r at hs
  induction hs with
  | done => exact .done
  | more hu _ _ ih =>
    obtain rfl := Pattern.many.inj hr
    exact matches_many_append (h _ hu) (ih rfl)
  | _ => cases hr

/-- Any number of characters that are accepted. -/
theorem matches_many_one_iff {accepts : Char → Bool} :
    Matches (many (one accepts)) s ↔ ∀ c ∈ s, accepts c = true := by
  induction s with
  | nil => exact ⟨fun _ c hc => absurd hc List.not_mem_nil, fun _ => .done⟩
  | cons c s ih =>
    rw [matches_many_cons_iff, List.forall_mem_cons, ← ih]
    constructor
    · intro h
      obtain ⟨u, v, hu, hv, rfl⟩ := h
      obtain ⟨d, hd, heq⟩ := matches_one_iff.mp hu
      obtain ⟨rfl, rfl⟩ := List.cons.inj heq
      exact ⟨hd, hv⟩
    · intro h
      exact ⟨[], s, .one h.1, h.2, rfl⟩

/-- A run of characters of a class starts with one of them. -/
theorem exists_cons_of_many1_anyOf {cs : String} (h : Matches (many1 (anyOf cs)) s) :
    ∃ c tail, s = c :: tail ∧ c ∈ cs.toList := by
  obtain ⟨first, tail, hfirst, -, rfl⟩ := matches_seq_iff.mp h
  obtain ⟨c, hc, rfl⟩ := matches_one_iff.mp hfirst
  exact ⟨c, tail, rfl, List.contains_iff_mem.mp hc⟩

/-- A row of characters matches itself only. -/
theorem matches_chars_iff {cs : List Char} : (chars cs).Matches s ↔ s = cs := by
  induction cs generalizing s with
  | nil => exact matches_nothing_iff
  | cons c cs ih =>
    simp only [chars, matches_seq_iff, matches_one_iff, ih, decide_eq_true_eq]
    constructor
    · intro h
      obtain ⟨u, v, ⟨d, rfl, rfl⟩, rfl, rfl⟩ := h
      rfl
    · intro h
      subst h
      exact ⟨[c], cs, ⟨c, rfl, rfl⟩, rfl, rfl⟩

theorem matches_text_iff {t : String} : (text t).Matches s ↔ s = t.toList := matches_chars_iff

/-- A list of texts matches these texts only. -/
theorem matches_oneOfTexts_iff {texts : List String} :
    (oneOfTexts texts).Matches s ↔ String.ofList s ∈ texts := by
  induction texts with
  | nil => simp [oneOfTexts]
  | cons t texts ih =>
    have hcons : oneOfTexts (t :: texts) = .either (.text t) (oneOfTexts texts) := rfl
    rw [hcons, matches_either_iff, matches_text_iff, ih, List.mem_cons, ← String.toList_inj,
      String.toList_ofList]

/-! ## Simplified sequences and choices -/

/-- A pattern that is joined matches like a sequence. -/
theorem matches_joined_iff : Matches (joined p q) s ↔ Matches (seq p q) s := by
  rw [matches_seq_iff]
  unfold joined
  split
  · simp
  · simp
  · simp
  · rw [matches_seq_iff]

/-- A pattern that is merged matches like an alternative. -/
theorem matches_merged_iff : Matches (merged p q) s ↔ Matches (either p q) s := by
  rw [matches_either_iff]
  unfold merged
  split
  · simp
  · simp
  · rw [matches_either_iff]

/-! ## Matching -/

/-- `acceptsEmpty` decides whether a pattern describes the empty text. -/
theorem acceptsEmpty_iff : p.acceptsEmpty = true ↔ Matches p [] := by
  induction p with
  | never => simp [acceptsEmpty]
  | nothing => simp [acceptsEmpty]
  | one accepts => simp [acceptsEmpty, matches_one_iff]
  -- only the empty text is made of two empty ones
  | seq p q ihp ihq =>
    rw [acceptsEmpty, Bool.and_eq_true, ihp, ihq, matches_seq_iff]
    constructor
    · intro h
      obtain ⟨hp, hq⟩ := h
      exact ⟨[], [], hp, hq, rfl⟩
    · intro h
      obtain ⟨u, v, hp, hq, huv⟩ := h
      obtain ⟨rfl, rfl⟩ := List.append_eq_nil_iff.mp huv.symm
      exact ⟨hp, hq⟩
  | either p q ihp ihq => rw [acceptsEmpty, Bool.or_eq_true, ihp, ihq, matches_either_iff]
  | many p _ => exact ⟨fun _ => .done, fun _ => rfl⟩

/-- A text of a sequence that starts with a character: either its first part does, or that part
    is empty and the second part does. -/
theorem matches_seq_cons_iff :
    Matches (seq p q) (c :: s) ↔
      (∃ u v, Matches p (c :: u) ∧ Matches q v ∧ s = u ++ v) ∨
        Matches p [] ∧ Matches q (c :: s) := by
  rw [matches_seq_iff]
  constructor
  · intro h
    obtain ⟨u, v, hu, hv, hs⟩ := h
    -- the first character is one of the first part, unless this is empty
    cases u with
    | nil => exact .inr ⟨hu, by rwa [hs]⟩
    | cons d u =>
      obtain ⟨rfl, rfl⟩ := List.cons.inj hs
      exact .inl ⟨u, v, hu, hv, rfl⟩
  · intro h
    rcases h with ⟨u, v, hu, hv, rfl⟩ | ⟨hp, hq⟩
    · exact ⟨c :: u, v, hu, hv, rfl⟩
    · exact ⟨[], c :: s, hp, hq, rfl⟩

/-- What is left of a pattern after a character describes what follows it. -/
theorem matches_after_iff : Matches (p.after c) s ↔ Matches p (c :: s) := by
  induction p generalizing s with
  | never => simp [after]
  | nothing => simp [after]
  | one accepts =>
    rw [after, matches_one_iff]
    split
    · rename_i hc
      rw [matches_nothing_iff]
      constructor
      · intro h
        subst h
        exact ⟨c, hc, rfl⟩
      · intro h
        obtain ⟨d, -, hd⟩ := h
        exact (List.cons.inj hd).2
    · rename_i hc
      constructor
      · intro h
        cases h
      · intro h
        obtain ⟨d, hd, hs⟩ := h
        obtain ⟨rfl, -⟩ := List.cons.inj hs
        exact absurd hd hc
  -- the character is taken from the second part if the first one can be empty
  | seq p q ihp ihq =>
    have hjoined : Matches (joined (p.after c) q) s ↔
        ∃ u v, Matches p (c :: u) ∧ Matches q v ∧ s = u ++ v := by
      simp only [matches_joined_iff, matches_seq_iff, ihp]
    rw [after, matches_seq_cons_iff]
    split
    · rename_i hempty
      rw [matches_merged_iff, matches_either_iff, hjoined, ihq]
      simp only [acceptsEmpty_iff.mp hempty, true_and]
    · rename_i hempty
      rw [hjoined]
      simp only [mt acceptsEmpty_iff.mpr hempty, false_and, or_false]
  | either p q ihp ihq =>
    rw [after, matches_merged_iff, matches_either_iff, matches_either_iff, ihp, ihq]
  -- the first repetition goes on, and the others come behind it
  | many p ih =>
    simp only [after, matches_joined_iff, matches_seq_iff, matches_many_cons_iff, ih]

/-- Where nothing is left of a pattern, no text of it starts. -/
theorem not_matches_cons_of_isNever (h : (p.after c).isNever = true) : ¬ Matches p (c :: s) := by
  rw [← matches_after_iff]
  revert h
  cases p.after c with
  | never => exact fun _ => not_matches_never s
  | _ => exact fun h => nomatch h

/-- `accepts` decides the texts of a pattern. -/
theorem accepts_iff : p.accepts s = true ↔ Matches p s := by
  induction s generalizing p with
  | nil => exact acceptsEmpty_iff
  | cons c s ih => rw [accepts, ih, matches_after_iff]

instance (p : Pattern) (s : List Char) : Decidable (Matches p s) :=
  decidable_of_iff _ accepts_iff

/-! ## Characters of a pattern -/

/-- Whether a character is allowed anywhere in a pattern. -/
def allows (x : Char) : Pattern → Bool
  | never => false
  | nothing => false
  | one accepts => accepts x
  | seq p q => p.allows x || q.allows x
  | either p q => p.allows x || q.allows x
  | many p => p.allows x

@[simp] theorem allows_anyOf (x : Char) (cs : String) :
    (anyOf cs).allows x = cs.toList.contains x := rfl

@[simp] theorem allows_optional (x : Char) (p : Pattern) : (optional p).allows x = p.allows x :=
  Bool.or_false _

theorem allows_chars (x : Char) (cs : List Char) : (chars cs).allows x = cs.contains x := by
  induction cs with
  | nil => rfl
  | cons c cs ih =>
    rw [chars, allows, ih, allows, List.contains_cons]
    rfl

@[simp] theorem allows_text (x : Char) (t : String) : (text t).allows x = t.toList.contains x :=
  allows_chars x t.toList

/-- A text holds only characters that its pattern allows. -/
theorem allows_of_mem {x : Char} (h : Matches p s) (hx : x ∈ s) : p.allows x = true := by
  -- the induction is on the match, whose parts hold the character
  induction h with
  | nothing => simp at hx
  | one hc =>
    obtain rfl := List.mem_singleton.mp hx
    exact hc
  | seq _ _ ihp ihq =>
    rw [allows, Bool.or_eq_true]
    exact (List.mem_append.mp hx).imp ihp ihq
  | left _ ih => rw [allows, ih hx, Bool.true_or]
  | right _ ih => rw [allows, ih hx, Bool.or_true]
  | done => simp at hx
  | more _ _ ihp ihq =>
    rcases List.mem_append.mp hx with hx | hx
    · exact ihp hx
    · exact ihq hx

end Tinct.Pattern
