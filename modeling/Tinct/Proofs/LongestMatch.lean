import Tinct.Grammar
import Tinct.Proofs.PatternMatching

/-!
# Lexemes as longest matches

`lexemes` drops rules as it reads, and remembers the last place where one of them matched.  This
file says what comes out of it without speaking of rules on the way: at every place of a text the
lexeme is the longest beginning of the remaining text that some rule describes, of the kind of the
first such rule, and a single character where no rule describes any beginning.

## Key results

- `longest?_spec`: `longest?` finds the longest match, and fails only where nothing matches
- `lexemes_eq_cons`: the first lexeme is the next one of the text, and the others are the lexemes
  of what it leaves
- `next_of_lexemes_eq`: so every lexeme is the next one of the text that starts with it
- `Next.length_le`: no match is longer than the next lexeme
- `Next.append`: where the rules and the scan behind a match stay within a text, so does its next
  lexeme with more text behind
- `Next.unique`, `lexemes_of_next`: there is only one next lexeme, and the lexemes begin with it
- `lexemes_append`, `lexemes_append_of_last`: text behind a text adds its own lexemes, if it does
  not change those before it
-/

namespace Tinct.Grammar

variable {κ : Type}

/-! ## The rule that counts -/

/-- The kind of the first rule that describes a text. -/
def selected (rules : List (Rule κ)) (w : List Char) : Option κ :=
  (rules.find? (·.pattern.accepts w)).map (·.kind)

theorem selected_eq_none_iff {rules : List (Rule κ)} {w : List Char} :
    selected rules w = none ↔ ∀ r ∈ rules, ¬ r.pattern.Matches w := by
  simp only [selected, Option.map_eq_none_iff, List.find?_eq_none, Pattern.accepts_iff]

/-- What is selected is the kind of a rule that describes the text. -/
theorem exists_rule_of_selected {rules : List (Rule κ)} {w : List Char} {kind : κ}
    (h : selected rules w = some kind) :
    ∃ r ∈ rules, r.kind = kind ∧ r.pattern.Matches w := by
  obtain ⟨r, hr, hkind⟩ := Option.map_eq_some_iff.mp h
  have haccepts : r.pattern.accepts w = true :=
    List.find?_some (p := fun r : Rule κ => r.pattern.accepts w) hr
  exact ⟨r, List.mem_of_find?_eq_some hr, hkind, Pattern.accepts_iff.mp haccepts⟩

/-- If all rules that describe a text are of one kind, this kind is selected. -/
theorem selected_of_forall {rules : List (Rule κ)} {w : List Char} {kind : κ}
    (hrule : ∃ r ∈ rules, r.pattern.Matches w)
    (hkind : ∀ r ∈ rules, r.pattern.Matches w → r.kind = kind) : selected rules w = some kind := by
  cases hselected : selected rules w with
  | none =>
    obtain ⟨r, hr, hmatches⟩ := hrule
    exact absurd hmatches (selected_eq_none_iff.mp hselected r hr)
  | some found =>
    obtain ⟨r, hr, rfl, hmatches⟩ := exists_rule_of_selected hselected
    rw [hkind r hr hmatches]

/-- The first rule that describes a text is selected. -/
theorem selected_cons (r : Rule κ) (rules : List (Rule κ)) (w : List Char) :
    selected (r :: rules) w = if r.pattern.Matches w then some r.kind else selected rules w := by
  rw [selected, List.find?_cons]
  by_cases h : r.pattern.Matches w
  · rw [if_pos h, Pattern.accepts_iff.mpr h]
    rfl
  · rw [if_neg h, Bool.eq_false_iff.mpr (mt Pattern.accepts_iff.mp h)]
    rfl

/-- A rule is left out once no text can go on with it. -/
private theorem advance_cons (c : Char) (r : Rule κ) (rules : List (Rule κ)) :
    advance c (r :: rules) =
      if (r.pattern.after c).isNever then advance c rules
      else { r with pattern := r.pattern.after c } :: advance c rules := by
  simp only [advance, List.map_cons, List.filter_cons]
  cases (r.pattern.after c).isNever <;> rfl

/-- What is left of the rules after a character selects like the rules behind this character:
    a rule that is dropped describes no text that starts with it. -/
theorem selected_advance (c : Char) (rules : List (Rule κ)) (w : List Char) :
    selected (advance c rules) w = selected rules (c :: w) := by
  induction rules with
  | nil => rfl
  | cons r rules ih =>
    rw [advance_cons, selected_cons]
    split
    · rename_i hnever
      rw [ih, if_neg (Pattern.not_matches_cons_of_isNever hnever)]
    · simp only [selected_cons, ih, Pattern.matches_after_iff]

/-! ## The longest match -/

/-- The longest beginning of a text that a rule describes has `n` characters, and `kind` is the
    kind of the first rule that describes it. -/
structure IsLongest (rules : List (Rule κ)) (text : List Char) (kind : κ) (n : Nat) : Prop where
  le_length : n ≤ text.length
  selected_eq : selected rules (text.take n) = some kind
  maximal : ∀ m, n < m → m ≤ text.length → selected rules (text.take m) = none

/-- `longest?` finds the longest match, and fails only where no beginning matches. -/
theorem longest?_spec (rules : List (Rule κ)) (text : List Char) :
    match longest? rules text with
    | some (kind, n) => IsLongest rules text kind n
    | none => ∀ m, selected rules (text.take m) = none := by
  -- every character of the text leaves other rules
  induction text generalizing rules with
  | nil =>
    cases h : matched? rules with
    | none =>
      simp only [longest?, h, Option.map_none, List.take_nil]
      exact fun _ => h
    | some kind =>
      simp only [longest?, h, Option.map_some]
      exact ⟨Nat.le_refl 0, h, fun m hpos hle => absurd hle (by simpa using Nat.not_le.mpr hpos)⟩
  | cons c rest ih =>
    have hrest := ih (advance c rules)
    -- without rules nothing matches, however far the text goes
    by_cases hempty : rules.isEmpty
    · rw [List.isEmpty_iff.mp hempty]
      exact fun _ => rfl
    · rw [longest?, if_neg hempty]
      cases hfound : longest? (advance c rules) rest with
      | some found =>
        -- some longer match: it is behind `c`
        obtain ⟨kind, n⟩ := found
        simp only [hfound] at hrest
        show IsLongest rules (c :: rest) kind (n + 1)
        refine ⟨Nat.succ_le_succ hrest.le_length, ?_, fun m hm hle => ?_⟩
        · rw [List.take_succ_cons, ← selected_advance]
          exact hrest.selected_eq
        · obtain ⟨m, rfl⟩ := Nat.exists_eq_succ_of_ne_zero (Nat.ne_of_gt (Nat.zero_lt_of_lt hm))
          rw [List.take_succ_cons, ← selected_advance]
          exact hrest.maximal m (Nat.lt_of_succ_lt_succ hm) (Nat.le_of_succ_le_succ hle)
      | none =>
        -- no match behind `c`: only the empty beginning is left
        simp only [hfound] at hrest
        have hbehind : ∀ m, selected rules ((c :: rest).take (m + 1)) = none := by
          intro m
          rw [List.take_succ_cons, ← selected_advance, hrest m]
        cases h : matched? rules with
        | none =>
          show ∀ m, selected rules ((c :: rest).take m) = none
          intro m
          cases m with
          | zero => exact h
          | succ m => exact hbehind m
        | some kind =>
          show IsLongest rules (c :: rest) kind 0
          refine ⟨Nat.zero_le _, h, fun m hpos hle => ?_⟩
          obtain ⟨m, rfl⟩ := Nat.exists_eq_succ_of_ne_zero (Nat.ne_of_gt hpos)
          exact hbehind m

/-! ## Lexemes -/

/-- No rule of the grammar describes a beginning of the text. -/
def Unrecognized (g : Grammar κ) (text : List Char) : Prop :=
  ∀ r ∈ g.rules, ∀ w, w ≠ [] → w <+: text → ¬ r.pattern.Matches w

/-- The next lexeme of a text.  Either no rule describes a beginning of the text, and it is one
    character; or the first rule that describes the longest such beginning has its kind, and it
    reaches as far behind that beginning as the grammar says. -/
inductive Next (g : Grammar κ) (text : List Char) : Lexeme κ → Prop
  | unknown {c : Char} {rest : List Char} :
      text = c :: rest → g.Unrecognized text → Next g text ⟨none, [c]⟩
  | longest {found behind : List Char} {kind : κ} :
      text = found ++ behind → found ≠ [] → selected g.rules found = some kind →
      (∀ r ∈ g.rules, ∀ w, w <+: text → found.length < w.length → ¬ r.pattern.Matches w) →
      Next g text ⟨some (g.extend kind found behind).1,
        found ++ behind.take (g.extend kind found behind).2⟩

/-- The longest match at the start of a text, in terms of its beginnings. -/
private theorem next_longest {g : Grammar κ} {c : Char} {rest : List Char} {kind : κ} {n : Nat}
    (h : IsLongest (advance c g.rules) rest kind n) :
    Next g (c :: rest) ⟨some (g.extend kind (c :: rest.take n) (rest.drop n)).1,
      c :: rest.take n ++ (rest.drop n).take (g.extend kind (c :: rest.take n) (rest.drop n)).2⟩ := by
  refine .longest (by simp) (by simp) ?_ ?_
  · rw [← selected_advance]
    exact h.selected_eq
  · -- a longer beginning of the text would be a longer match behind `c`
    intro r hr w hw hlen
    have hbeginning : w = (c :: rest).take w.length := List.prefix_iff_eq_take.mp hw
    obtain ⟨m, hm⟩ := Nat.exists_eq_succ_of_ne_zero (Nat.ne_of_gt (Nat.zero_lt_of_lt hlen))
    have hle : m ≤ rest.length := by
      have := hw.length_le
      simp only [List.length_cons] at this
      omega
    have hlt : n < m := by
      simp only [List.length_cons, List.length_take, Nat.min_eq_left h.le_length] at hlen
      omega
    rw [hbeginning, hm, List.take_succ_cons]
    exact selected_eq_none_iff.mp (selected_advance c g.rules _ ▸ h.maximal m hlt hle) r hr

/-- If no match goes on behind the first character, the text is not recognized. -/
private theorem unrecognized_cons {g : Grammar κ} {c : Char} {rest : List Char}
    (h : ∀ m, selected (advance c g.rules) (rest.take m) = none) :
    g.Unrecognized (c :: rest) := by
  intro r hr w hne hw
  obtain ⟨d, u, rfl⟩ := List.exists_cons_of_ne_nil hne
  obtain ⟨rfl, hu⟩ := List.cons_prefix_cons.mp hw
  rw [List.prefix_iff_eq_take.mp hu]
  exact selected_eq_none_iff.mp (selected_advance d g.rules _ ▸ h u.length) r hr

/-- The first lexeme is the next one of the text, and the others are the lexemes of what it
    leaves of the text. -/
theorem lexemes_eq_cons {g : Grammar κ} {text : List Char} {l : Lexeme κ}
    {after : List (Lexeme κ)} (h : g.lexemes text = l :: after) :
    Next g text l ∧ ∃ rest, text = l.text ++ rest ∧ after = g.lexemes rest := by
  cases text with
  | nil => simp [lexemes] at h
  | cons c rest =>
    have hspec := longest?_spec (advance c g.rules) rest
    rw [lexemes] at h
    -- the first lexeme is the longest match, or a single character
    split at hspec
    · rename_i kind n hfound
      simp only [hfound] at h
      obtain ⟨rfl, rfl⟩ := List.cons.inj h
      refine ⟨next_longest hspec, _, ?_, rfl⟩
      simp only [List.cons_append, List.append_assoc, List.take_append_drop]
    · rename_i hnone
      simp only [hnone] at h
      obtain ⟨rfl, rfl⟩ := List.cons.inj h
      exact ⟨.unknown rfl (unrecognized_cons hspec), rest, rfl, rfl⟩

/-- From any lexeme on, the lexemes are those of the text that is left there. -/
theorem lexemes_of_lexemes_eq {g : Grammar κ} {text : List Char} {before after : List (Lexeme κ)}
    (h : g.lexemes text = before ++ after) : g.lexemes (after.flatMap (·.text)) = after := by
  induction before generalizing text with
  | nil => rw [List.nil_append] at h; rw [← h, lexemes_text, h]
  | cons l before ih =>
    obtain ⟨-, rest, -, hrest⟩ := lexemes_eq_cons h
    exact ih hrest.symm

/-- Every lexeme is the next one of the text that starts with it. -/
theorem next_of_lexemes_eq {g : Grammar κ} {text : List Char} {l : Lexeme κ}
    {before after : List (Lexeme κ)} (h : g.lexemes text = before ++ l :: after) :
    Next g ((l :: after).flatMap (·.text)) l :=
  (lexemes_eq_cons (lexemes_of_lexemes_eq h)).1

/-- The lexeme at the start of a text is not empty. -/
theorem Next.text_ne_nil {g : Grammar κ} {text : List Char} {l : Lexeme κ} (h : Next g text l) :
    l.text ≠ [] := by
  cases h with
  | unknown => simp
  | longest _ hne => simp [hne]

/-- The text starts with its next lexeme. -/
theorem Next.isPrefixOf {g : Grammar κ} {text : List Char} {l : Lexeme κ} (h : Next g text l) :
    l.text <+: text := by
  cases h with
  | unknown hcons => exact hcons ▸ List.prefix_append _ _
  | longest hsplit =>
    exact hsplit ▸ (List.prefix_append_right_inj _).mpr (List.take_prefix _ _)

/-- No match at the start of a text is longer than its next lexeme. -/
theorem Next.length_le {g : Grammar κ} {text : List Char} {l : Lexeme κ} (h : Next g text l)
    {r : Rule κ} (hr : r ∈ g.rules) {w : List Char} (hw : w <+: text)
    (hmatches : r.pattern.Matches w) : w.length ≤ l.text.length := by
  cases h with
  | unknown _ hunrecognized =>
    have hempty : w = [] := Classical.not_not.mp fun hne => hunrecognized r hr w hne hw hmatches
    rw [hempty]
    exact Nat.zero_le _
  | @longest found behind kind _ _ _ hmaximal =>
    have hle : w.length ≤ found.length := Nat.not_lt.mp fun hlt => hmaximal r hr w hw hlt hmatches
    rw [List.length_append]
    exact Nat.le_add_right_of_le hle

/-- A beginning of a text with more text behind it is one of this text, or reaches beyond it. -/
theorem prefix_or_eq_append_cons {text more w : List Char} (h : w <+: text ++ more) :
    w <+: text ∨ ∃ c back, w = text ++ c :: back := by
  rcases List.prefix_or_prefix_of_prefix h (List.prefix_append text more) with hpre | ⟨back, rfl⟩
  · exact .inl hpre
  · cases back with
    | nil => exact .inl (by simp)
    | cons c back => exact .inr ⟨c, back, rfl⟩

/-- A match that does not know the character behind a beginning of the text ends within it. -/
theorem length_le_of_not_allows {p : Pattern} {w behind v : List Char}
    (hmatches : p.Matches v) (hpre : v <+: w ++ behind)
    (hends : ∀ d, behind.head? = some d → p.allows d = false) : v.length ≤ w.length := by
  rcases prefix_or_eq_append_cons hpre with hwithin | ⟨d, u, rfl⟩
  · exact hwithin.length_le
  · have hhead : behind.head? = some d := by
      obtain ⟨_, rfl⟩ := (List.prefix_append_right_inj w).mp hpre
      rfl
    have hallows := Pattern.allows_of_mem hmatches (List.mem_append_right w List.mem_cons_self)
    rw [hends d hhead] at hallows
    cases hallows

/-- The next lexeme stays as it is with more text behind, if no rule describes a beginning that
    reaches into this text and if what the match is extended by ends before it. -/
theorem Next.append {g : Grammar κ} {text more : List Char} {l : Lexeme κ} (h : Next g text l)
    (hrules : ∀ r ∈ g.rules, ∀ w, w <+: text ++ more → r.pattern.Matches w → w <+: text)
    (hextend : ∀ found behind kind, text = found ++ behind →
      selected g.rules found = some kind →
      l.text = found ++ behind.take (g.extend kind found behind).2 →
        (g.extend kind found behind).2 ≤ behind.length ∧
          g.extend kind found (behind ++ more) = g.extend kind found behind) :
    Next g (text ++ more) l := by
  cases h with
  | unknown hcons hunrecognized =>
    refine .unknown (by rw [hcons, List.cons_append]) fun r hr w hne hw hmatches => ?_
    exact hunrecognized r hr w hne (hrules r hr w hw hmatches) hmatches
  -- the match is as long with more text behind it, and is extended as far
  | @longest found behind kind hsplit hne hselected hmaximal =>
    obtain ⟨hle, hsame⟩ := hextend found behind kind hsplit hselected rfl
    have hnext : Next g (text ++ more) ⟨some (g.extend kind found (behind ++ more)).1,
        found ++ (behind ++ more).take (g.extend kind found (behind ++ more)).2⟩ := by
      refine .longest (by rw [hsplit, List.append_assoc]) hne hselected ?_
      intro r hr w hw hlen hmatches
      exact hmaximal r hr w (hrules r hr w hw hmatches) hlen hmatches
    rwa [hsame, List.take_append_of_le_length hle] at hnext

/-- What some rule describes is recognized. -/
private theorem not_unrecognized_of_selected {g : Grammar κ} {found behind : List Char} {kind : κ}
    (hne : found ≠ []) (hselected : selected g.rules found = some kind) :
    ¬ g.Unrecognized (found ++ behind) := by
  intro hunrecognized
  obtain ⟨r, hr, -, hmatches⟩ := exists_rule_of_selected hselected
  exact hunrecognized r hr found hne (List.prefix_append found behind) hmatches

/-- Of two longest matches neither is longer. -/
private theorem length_le_of_longest {g : Grammar κ} {text found : List Char} {n : Nat} {kind : κ}
    (hpre : found <+: text) (hselected : selected g.rules found = some kind)
    (hmaximal : ∀ r ∈ g.rules, ∀ w, w <+: text → n < w.length → ¬ r.pattern.Matches w) :
    found.length ≤ n := by
  obtain ⟨r, hr, -, hmatches⟩ := exists_rule_of_selected hselected
  exact Nat.not_lt.mp fun hlt => hmaximal r hr found hpre hlt hmatches

/-- A text has only one next lexeme. -/
theorem Next.unique {g : Grammar κ} {text : List Char} {l m : Lexeme κ} (hl : Next g text l)
    (hm : Next g text m) : l = m := by
  cases hl with
  | unknown hcons hunrecognized =>
    cases hm with
    | unknown hcons' _ =>
      obtain ⟨rfl, -⟩ := List.cons.inj (hcons.symm.trans hcons')
      rfl
    | longest hsplit hne hselected _ =>
      exact absurd (hsplit ▸ hunrecognized) (not_unrecognized_of_selected hne hselected)
  | @longest found behind kind hsplit hne hselected hmaximal =>
    cases hm with
    | unknown _ hunrecognized =>
      exact absurd (hsplit ▸ hunrecognized) (not_unrecognized_of_selected hne hselected)
    | @longest found' behind' kind' hsplit' _ hselected' hmaximal' =>
      have hpre : found <+: text := hsplit ▸ List.prefix_append found behind
      have hpre' : found' <+: text := hsplit' ▸ List.prefix_append found' behind'
      -- neither match is longer than the other one, so they are the same beginning
      have hlen : found.length = found'.length :=
        Nat.le_antisymm (length_le_of_longest hpre hselected hmaximal')
          (length_le_of_longest hpre' hselected' hmaximal)
      obtain ⟨rfl, rfl⟩ := List.append_inj (hsplit.symm.trans hsplit') hlen
      obtain rfl := Option.some.inj (hselected.symm.trans hselected')
      rfl

/-- The lexemes of a text begin with its next lexeme. -/
theorem lexemes_of_next {g : Grammar κ} {l : Lexeme κ} {rest : List Char}
    (h : Next g (l.text ++ rest) l) : g.lexemes (l.text ++ rest) = l :: g.lexemes rest := by
  cases hlexemes : g.lexemes (l.text ++ rest) with
  | nil =>
    -- a text without lexemes is empty, but a lexeme is not
    have htext := g.lexemes_text (l.text ++ rest)
    rw [hlexemes, List.flatMap_nil] at htext
    exact absurd (List.append_eq_nil_iff.mp htext.symm).1 h.text_ne_nil
  | cons m after =>
    obtain ⟨hm, rest', hsplit, hafter⟩ := lexemes_eq_cons hlexemes
    obtain rfl := h.unique hm
    rw [hafter, List.append_cancel_left hsplit]

/-- Where every lexeme of a text is still the next one with more text behind, that text adds its
    own lexemes. -/
theorem lexemes_append {g : Grammar κ} {text more : List Char}
    (h : ∀ before l after, g.lexemes text = before ++ l :: after →
      Next g ((l :: after).flatMap (·.text) ++ more) l) :
    g.lexemes (text ++ more) = g.lexemes text ++ g.lexemes more := by
  generalize hlexemes : g.lexemes text = lexemes at h
  induction lexemes generalizing text with
  | nil =>
    have htext := g.lexemes_text text
    rw [hlexemes, List.flatMap_nil] at htext
    rw [← htext, List.nil_append, List.nil_append]
  | cons l after ih =>
    -- the first lexeme is the same, and so are those behind it by induction
    obtain ⟨-, rest, rfl, hafter⟩ := lexemes_eq_cons hlexemes
    have hnext := h [] l after rfl
    rw [List.flatMap_cons, hafter, g.lexemes_text, List.append_assoc] at hnext
    rw [List.append_assoc, lexemes_of_next hnext, List.cons_append]
    congr 1
    exact ih hafter.symm fun before m rest' hsplit => h (l :: before) m rest' (by rw [hsplit]; rfl)

/-- This is so where the last lexeme of the text is the next one whatever follows, and every lexeme
    with it behind does not depend on what follows. -/
theorem lexemes_append_of_last {g : Grammar κ} {text more : List Char} {before : List (Lexeme κ)}
    {last : Lexeme κ} (h : g.lexemes text = before ++ [last])
    (hlast : Next g (last.text ++ more) last)
    (hbefore : ∀ (l : Lexeme κ) (rest : List Char), Next g (l.text ++ rest) l →
      last.text <:+ rest → Next g (l.text ++ rest ++ more) l) :
    g.lexemes (text ++ more) = g.lexemes text ++ g.lexemes more := by
  refine lexemes_append fun front l after hsplit => ?_
  have hnext := next_of_lexemes_eq hsplit
  rw [h] at hsplit
  rcases List.eq_nil_or_concat after with rfl | ⟨middle, m, rfl⟩
  · -- the last lexeme itself
    obtain ⟨-, hl⟩ := List.append_inj' hsplit rfl
    obtain rfl := List.singleton_inj.mp hl
    rwa [List.flatMap_singleton]
  · -- a lexeme with the last one behind it
    rw [List.concat_eq_append, ← List.cons_append, ← List.append_assoc] at hsplit
    obtain ⟨-, hm⟩ := List.append_inj' hsplit rfl
    obtain rfl := List.singleton_inj.mp hm
    rw [List.flatMap_cons] at hnext ⊢
    refine hbefore l _ hnext ⟨middle.flatMap (·.text), ?_⟩
    rw [List.concat_eq_append, List.flatMap_append, List.flatMap_singleton]

end Tinct.Grammar
