import Tinct.Json.Printer
import Tinct.Json.Reader

/-!
# Reading JSON one token at a time

The reader first cuts a text into tokens and then runs over them.  Here both are taken together: a
state of the reader takes a text, and what it does with the text is what it does with the first
token and then with the text behind.

## Key results

- `stringBody?_written`: a written string is read back, up to its closing quote
- `Token.ofChars?_string`, `Token.ofChars?_number`, `Token.ofChars?_word`: the first token of a text
- `Reading.readChars?_of_ofChars?`: a state takes the first token, then the text behind
-/

namespace Tinct

/-- A property of all elements of a list is decided one element at a time, however many values the
    type has. -/
theorem forall_mem_of_all {α : Type} {p : α → Prop} [DecidablePred p] {l : List α}
    (h : (l.all fun a => decide (p a)) = true) : ∀ a ∈ l, p a :=
  fun a ha => of_decide_eq_true (List.all_eq_true.mp h a ha)

namespace Json

/-! ## Strings -/

private theorem hexDigit?_hexChar : ∀ n < 16, hexDigit? (hexChar n) = some n := by decide

/-- The four digits of a 16-bit unit are read as its number. -/
private theorem unit?_hexChar {n : Nat} (h : n < 65536) :
    unit? (hexChar (n / 4096 % 16)) (hexChar (n / 256 % 16)) (hexChar (n / 16 % 16))
      (hexChar (n % 16)) = some n := by
  have hdigits : ((n / 4096 % 16 * 16 + n / 256 % 16) * 16 + n / 16 % 16) * 16 + n % 16 = n := by
    omega
  have hdigit : ∀ k, hexDigit? (hexChar (k % 16)) = some (k % 16) :=
    fun k => hexDigit?_hexChar _ (Nat.mod_lt k (by decide))
  simp only [unit?, hdigit, Option.bind_eq_bind, Option.bind_some, hdigits, Option.pure_def]

/-- The characters that are escaped by a letter or by themselves. -/
private def shortEscaped : List Char := ['"', '\\', '\x08', '\x0c', '\n', '\r', '\t']

/-- What such a character is escaped by. -/
private def shortEscape (c : Char) : Char := (escape c).getLastD c

/-- A character with a short escape is escaped so and read back. -/
private theorem escape_of_mem : ∀ c ∈ shortEscaped,
    simpleEscape? (shortEscape c) = some c ∧ escape c = ['\\', shortEscape c] :=
  forall_mem_of_all (by decide)

/-- Of the others, those of control are escaped by number, and the rest stand for themselves. -/
private theorem escape_of_not_mem {c : Char} (h : c ∉ shortEscaped) :
    escape c = if c.toNat < 0x20 then unitEscape c.toNat else [c] := by
  simp only [shortEscaped, List.mem_cons, List.not_mem_nil, or_false, not_or] at h
  obtain ⟨hquote, hslash, hb, hf, hn, hr, ht⟩ := h
  rw [escape, if_neg hquote, if_neg hslash, if_neg hb, if_neg hf, if_neg hn, if_neg hr, if_neg ht]

/-- A character that stands for itself is read as such. -/
theorem stringBody?_cons {c : Char} (hquote : c ≠ '"') (hslash : c ≠ '\\')
    (hcontrol : ¬ c.toNat < 0x20) (rest : List Char) :
    stringBody? (c :: rest) =
      (stringBody? rest).map fun found => (.char c :: found.1, found.2) := by
  rw [stringBody?]
  · simp only [hslash, hcontrol, decide_false, Bool.or_false, Bool.false_eq_true, if_false]
  · exact hquote
  · intro _ _ _ _ _ h
    exact absurd h hslash
  · intro _ _ h
    exact absurd h hslash

/-- An escaped character is read as one character of the string. -/
theorem stringBody?_escape (c : Char) (rest : List Char) :
    stringBody? (escape c ++ rest) =
      (stringBody? rest).map fun found => (.char c :: found.1, found.2) := by
  by_cases hshort : c ∈ shortEscaped
  · -- an escape of one character, which is not the one that four digits follow
    obtain ⟨hsimple, hescape⟩ := escape_of_mem c hshort
    have hu : shortEscape c ≠ 'u' := by
      intro heq
      rw [heq] at hsimple
      cases hsimple
    rw [hescape, List.cons_append, List.singleton_append, stringBody?, hsimple]
    · cases stringBody? rest <;> rfl
    · intro _ _ _ _ _ heq
      exact absurd heq hu
  · rw [escape_of_not_mem hshort]
    by_cases hcontrol : c.toNat < 0x20
    · rw [if_pos hcontrol, unitEscape]
      simp only [List.cons_append, List.nil_append]
      rw [stringBody?, unit?_hexChar (by omega)]
      cases stringBody? rest with
      | none => rfl
      | some found =>
        -- a control character is no surrogate
        have hunit : consUnit c.toNat found.1 = .char c :: found.1 := by
          unfold consUnit
          rw [if_neg (by simp; omega), if_neg (by simp; omega), Char.ofNat_toNat]
        simp only [hunit, Option.map_some]
    · -- all others stand for themselves
      have hquote : c ≠ '"' := fun h => hshort (by simp [h, shortEscaped])
      have hslash : c ≠ '\\' := fun h => hshort (by simp [h, shortEscaped])
      rw [if_neg hcontrol, List.singleton_append, stringBody?_cons hquote hslash hcontrol]

/-- A written string is read back, up to its closing quote. -/
theorem stringBody?_written (cs rest : List Char) :
    stringBody? (cs.flatMap escape ++ '"' :: rest) = some (cs.map .char, rest) := by
  induction cs with
  | nil => simp [stringBody?]
  | cons c cs ih =>
    rw [List.flatMap_cons, List.append_assoc, stringBody?_escape, ih]
    rfl

/-! ## The first token of a text -/

section Runs

variable {p : Char → Bool} {run rest : List Char}

/-- A run ends where the characters of its kind end. -/
theorem takeWhile_append_of_head? (hrun : ∀ c ∈ run, p c = true)
    (hrest : ∀ d, rest.head? = some d → p d = false) : (run ++ rest).takeWhile p = run := by
  rw [List.takeWhile_append_of_pos hrun]
  cases rest with
  | nil => simp
  | cons d rest => rw [List.takeWhile_cons_of_neg (by simp [hrest d rfl]), List.append_nil]

/-- A run ends where what is behind it starts with another character. -/
theorem dropWhile_append_of_head? (hrun : ∀ c ∈ run, p c = true)
    (hrest : ∀ d, rest.head? = some d → p d = false) : (run ++ rest).dropWhile p = rest := by
  rw [List.dropWhile_append_of_pos hrun]
  cases rest with
  | nil => rfl
  | cons d rest => rw [List.dropWhile_cons_of_neg (by simp [hrest d rfl])]

end Runs

namespace Token

/-- A blank in front is left out. -/
theorem ofChars?_space {c : Char} (hc : isSpace c = true) (rest : List Char) :
    ofChars? (c :: rest) = ofChars? rest := by
  rw [ofChars?, if_pos hc]

/-- The characters that are tokens of their own. -/
def marks : List Char := ['[', ']', '\x7b', '\x7d', ':', ',']

/-- Only marks have a token of their own. -/
theorem mem_marks_of_ofMark? {c : Char} {t : Token} (hc : ofMark? c = some t) : c ∈ marks := by
  unfold ofMark? at hc
  split at hc <;> first | decide | cases hc

/-- The blank characters. -/
def spaces : List Char := [' ', '\t', '\n', '\r']

theorem mem_spaces_iff {c : Char} : c ∈ spaces ↔ isSpace c = true := by
  simp [spaces, isSpace, or_assoc]

theorem isSpace_of_mem_marks : ∀ c ∈ marks, isSpace c = false :=
  forall_mem_of_all (by decide)

/-- A mark in front is read as its token. -/
theorem ofChars?_mark {c : Char} {t : Token} (hc : ofMark? c = some t) (rest : List Char) :
    ofChars? (c :: rest) = (ofChars? rest).map (t :: ·) := by
  rw [ofChars?, isSpace_of_mem_marks c (mem_marks_of_ofMark? hc), hc]
  rfl

/-- A string in front is read as its text. -/
theorem ofChars?_string (cs rest : List Char) :
    ofChars? (Text.written (cs.map .char) ++ rest) =
      (ofChars? rest).map (.string (cs.map .char) :: ·) := by
  have hwritten : Text.written (cs.map .char) ++ rest =
      '"' :: (cs.flatMap escape ++ '"' :: rest) := by
    rw [Text.written, List.flatMap_map, List.append_assoc, List.cons_append]
    rfl
  have hspace : isSpace '"' = false := by decide
  have hmark : ofMark? '"' = none := rfl
  rw [hwritten, ofChars?, hspace, hmark, if_neg Bool.false_ne_true]
  dsimp only
  rw [if_pos rfl]
  -- the reader names what it finds in the string, so the equation is used in both branches
  split
  · rename_i t behind hbody
    rw [stringBody?_written] at hbody
    obtain ⟨rfl, rfl⟩ := Prod.mk.inj (Option.some.inj hbody)
    rfl
  · rename_i hnone
    rw [stringBody?_written] at hnone
    cases hnone

/-- A number starts like no other token. -/
private theorem of_startsNumber {c : Char} (hc : (c = '-' || c.isDigit) = true) :
    isSpace c = false ∧ ofMark? c = none ∧ c ≠ '"' := by
  have hothers : ∀ d ∈ '"' :: spaces ++ marks, (d = '-' || d.isDigit) = false :=
    forall_mem_of_all (by decide)
  have hne : ∀ d ∈ '"' :: spaces ++ marks, c ≠ d := by
    rintro d hd rfl
    rw [hothers c hd] at hc
    cases hc
  refine ⟨Bool.eq_false_iff.mpr fun hspace => ?_, ?_, hne '"' (by simp)⟩
  · exact hne c (by simp [mem_spaces_iff.mpr hspace]) rfl
  · cases hmark : ofMark? c with
    | none => rfl
    | some t => exact absurd rfl (hne c (by simp [mem_marks_of_ofMark? hmark]))

/-- A word starts with a letter that starts nothing else, and goes on with letters. -/
private theorem exists_of_ofWord? {word : List Char} {t : Token} (hw : ofWord? word = some t) :
    ∃ c tail, word = c :: tail ∧
      (isSpace c = false ∧ ofMark? c = none ∧ c ≠ '"' ∧ (c = '-' || c.isDigit) = false) ∧
        ∀ d ∈ tail, d.isAlpha = true := by
  unfold ofWord? at hw
  split at hw
  · -- each of the three words is looked at by itself
    subst_vars
    exact ⟨_, _, rfl, by decide, forall_mem_of_all (by decide)⟩
  split at hw
  · subst_vars
    exact ⟨_, _, rfl, by decide, forall_mem_of_all (by decide)⟩
  split at hw
  · subst_vars
    exact ⟨_, _, rfl, by decide, forall_mem_of_all (by decide)⟩
  · cases hw

/-- A number in front is read up to the end of its word. -/
theorem ofChars?_number {c : Char} {tail rest : List Char} {n : Number}
    (hc : (c = '-' || c.isDigit) = true) (htail : ∀ d ∈ tail, isNumberChar d = true)
    (hn : Number.ofChars? (c :: tail) = some n)
    (hrest : ∀ d, rest.head? = some d → isNumberChar d = false) :
    ofChars? (c :: tail ++ rest) = (ofChars? rest).map (.number n :: ·) := by
  obtain ⟨hspace, hmark, hquote⟩ := of_startsNumber hc
  rw [List.cons_append, ofChars?, hspace, hmark, if_neg (by decide)]
  simp only [hquote, hc, if_true, if_false, takeWhile_append_of_head? htail hrest,
    dropWhile_append_of_head? htail hrest, hn]

/-- A word in front is read up to its end. -/
theorem ofChars?_word {word rest : List Char} {t : Token} (hw : ofWord? word = some t)
    (hrest : ∀ d, rest.head? = some d → d.isAlpha = false) :
    ofChars? (word ++ rest) = (ofChars? rest).map (t :: ·) := by
  obtain ⟨c, tail, rfl, hstart, htail⟩ := exists_of_ofWord? hw
  obtain ⟨hspace, hmark, hquote, hnumber⟩ := hstart
  rw [List.cons_append, ofChars?, hspace, hmark, if_neg (by decide)]
  simp only [hquote, hnumber, if_false, takeWhile_append_of_head? htail hrest,
    dropWhile_append_of_head? htail hrest, hw, Bool.false_eq_true]

end Token

/-! ## States and texts -/

namespace Reading

/-- The state that a state comes to with the tokens of a text. -/
def readChars? (r : Reading) (text : List Char) : Option Reading := do
  (← Token.ofChars? text).foldlM step r

theorem readChars?_nil (r : Reading) : r.readChars? [] = some r := by
  simp [readChars?, Token.ofChars?]

/-- Blanks make no difference to what is read. -/
theorem readChars?_space {c : Char} (hc : isSpace c = true) (r : Reading) (rest : List Char) :
    r.readChars? (c :: rest) = r.readChars? rest := by
  rw [readChars?, Token.ofChars?_space hc, readChars?]

/-- A state takes the first token, and then the text behind. -/
theorem readChars?_of_ofChars? {text rest : List Char} {t : Token}
    (h : Token.ofChars? text = (Token.ofChars? rest).map (t :: ·)) (r : Reading) :
    r.readChars? text = (r.step t).bind (·.readChars? rest) := by
  rw [readChars?, h]
  cases htokens : Token.ofChars? rest with
  | none =>
    cases r.step t <;> simp [readChars?, htokens]
  | some tokens =>
    simp [readChars?, htokens]

end Reading

/-- A text is parsed by reading it from the start of a value. -/
theorem parse?_eq (text : String) :
    parse? text = ((Reading.value []).readChars? text.toList).bind Reading.document? := by
  unfold parse? Reading.readChars? ofTokens?
  cases Token.ofChars? text.toList <;> rfl

end Json

end Tinct
