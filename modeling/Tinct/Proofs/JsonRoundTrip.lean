import Tinct.Proofs.JsonReading

/-!
# Written documents are read back

A document is written with blanks only between its tokens, and a token is followed by a character
that cannot continue it.  The reader therefore meets the tokens of the document one by one, and is
left with the value when they end.

## Key results

- `Number.ofChars?_written`: numbers keep their digits, places and exponent
- `readChars?_written`: where a value may come, the reader takes all of a written value
- `parse?_print`: a document whose strings are texts is read back in both layouts
-/

namespace Tinct.Json

/-! ## Digits -/

private theorem isDigit_of_mem_toDigits {n : Nat} {c : Char} (h : c ∈ Nat.toDigits 10 n) :
    c.isDigit = true :=
  Nat.isDigit_of_mem_toDigits (by decide) (by decide) h

/-- Digits are read as their number, whatever zeros stand in front. -/
theorem decimalValue_append_toDigits (zeros n : Nat) :
    decimalValue (List.replicate zeros '0' ++ Nat.toDigits 10 n) = n := by
  -- the library has the lemmas about digits for its own way to read them
  have hvalue : ∀ digits, decimalValue digits = Nat.ofDigitChars 10 digits 0 := by
    intro digits
    rw [decimalValue, Nat.ofDigitChars_eq_foldl]
    congr 1
    funext value d
    rw [Nat.mul_comm]
    rfl
  rw [hvalue, Nat.ofDigitChars_append, Nat.ofDigitChars_replicate_zero, Nat.mul_zero,
    Nat.ofDigitChars_ten_toDigits]

/-- Only zero itself is written with a zero in front. -/
theorem head?_toDigits_ne_zero {n : Nat} (h : n ≠ 0) : (Nat.toDigits 10 n).head? ≠ some '0' := by
  induction n using Nat.strongRecOn with
  | ind n ih =>
    by_cases hlt : n < 10
    · have hdigits : ∀ k < 10, k ≠ 0 → [Nat.digitChar k].head? ≠ some '0' := by decide
      rw [Nat.toDigits_of_lt_base hlt]
      exact hdigits n hlt h
    · -- a number of more digits starts like its tenth
      have hrest := ih (n / 10) (by omega) (by omega)
      rw [Nat.toDigits_of_base_le (by decide) (Nat.not_lt.mp hlt)]
      cases hhead : Nat.toDigits 10 (n / 10) with
      | nil => exact absurd hhead Nat.toDigits_ne_nil
      | cons d tail =>
        rw [hhead] at hrest
        exact hrest

/-! ## Signs, fractions and exponents -/

/-- Where digits start, no other character does. -/
private theorem head?_ne_of_isDigit {text : List Char} {c : Char}
    (htext : ∀ d, text.head? = some d → d.isDigit = true) (hc : c.isDigit = false) :
    text.head? ≠ some c := by
  intro hhead
  rw [htext c hhead] at hc
  cases hc

/-- Without a sign in front none is read. -/
theorem minusSign_of_head? {text : List Char} (h : text.head? ≠ some '-') :
    minusSign text = (false, text) := by
  unfold minusSign
  split
  · exact absurd rfl h
  · rfl

/-- Without a plus in front the sign is that of a number. -/
theorem eitherSign_of_head? {text : List Char} (h : text.head? ≠ some '+') :
    eitherSign text = minusSign text := by
  unfold eitherSign
  split
  · exact absurd rfl h
  · rfl

/-- Without a point in front no fraction is read. -/
theorem fraction?_of_head? {text : List Char} (h : text.head? ≠ some '.') :
    fraction? text = some ([], text) := by
  unfold fraction?
  split
  · exact absurd rfl h
  · rfl

/-- Behind a point all digits are read as the fraction. -/
theorem fraction?_point {digits rest : List Char} (hne : digits ≠ [])
    (hdigits : ∀ c ∈ digits, c.isDigit = true)
    (hrest : ∀ d, rest.head? = some d → d.isDigit = false) :
    fraction? ('.' :: (digits ++ rest)) = some (digits, rest) := by
  simp only [fraction?, takeWhile_append_of_head? hdigits hrest,
    dropWhile_append_of_head? hdigits hrest, List.isEmpty_iff, if_neg hne]

/-- A written exponent is read back. -/
theorem exponent?_written (e : Int) :
    exponent? ('e' :: (if e < 0 then ['-'] else []) ++ Nat.toDigits 10 e.natAbs) =
      some (some e) := by
  have hfirst : ∀ d, (Nat.toDigits 10 e.natAbs).head? = some d → d.isDigit = true :=
    fun d hd => isDigit_of_mem_toDigits (List.mem_of_head? hd)
  -- the sign is read off
  have hsign : eitherSign ((if e < 0 then ['-'] else []) ++ Nat.toDigits 10 e.natAbs) =
      (decide (e < 0), Nat.toDigits 10 e.natAbs) := by
    by_cases he : e < 0
    · rw [if_pos he, decide_eq_true he]
      rfl
    · rw [if_neg he, decide_eq_false he, List.nil_append,
        eitherSign_of_head? (head?_ne_of_isDigit hfirst rfl),
        minusSign_of_head? (head?_ne_of_isDigit hfirst rfl)]
  -- digits follow, and all that follows is digits
  have hdigits : ((Nat.toDigits 10 e.natAbs).isEmpty ||
      !(Nat.toDigits 10 e.natAbs).all Char.isDigit) = false := by
    have hall : (Nat.toDigits 10 e.natAbs).all Char.isDigit = true :=
      List.all_eq_true.mpr fun c hc => isDigit_of_mem_toDigits hc
    simp [hall, Nat.toDigits_ne_nil]
  have hvalue : decimalValue (Nat.toDigits 10 e.natAbs) = e.natAbs :=
    decimalValue_append_toDigits 0 e.natAbs
  rw [List.cons_append, exponent?, if_pos (by decide), hsign]
  simp only [hdigits, hvalue, decide_eq_true_eq, Bool.false_eq_true, if_false]
  congr 2
  omega

/-! ## Numbers -/

/-- The digits before and behind the point of a number, as they are written. -/
structure Number.Parts (n : Number) (whole fraction : List Char) : Prop where
  writtenDigits_eq : n.writtenDigits = whole ++ if fraction = [] then [] else '.' :: fraction
  isDigit_whole : ∀ c ∈ whole, c.isDigit = true
  isWholePart : isWholePart whole = true
  isDigit_fraction : ∀ c ∈ fraction, c.isDigit = true
  length_fraction : fraction.length = n.places
  value_eq : decimalValue (whole ++ fraction) = n.digits

/-- The digits of a number with as many zeros in front that one digit stands before the point. -/
private def Number.paddedDigits (n : Number) : List Char :=
  List.replicate (n.places + 1 - (Nat.toDigits 10 n.digits).length) '0' ++ Nat.toDigits 10 n.digits

private theorem Number.places_lt_length_paddedDigits (n : Number) :
    n.places < n.paddedDigits.length := by
  rw [paddedDigits, List.length_append, List.length_replicate]
  omega

/-- With the zeros in front, a number still has digits only. -/
private theorem Number.isDigit_of_mem_paddedDigits {n : Number} {c : Char}
    (hc : c ∈ n.paddedDigits) : c.isDigit = true := by
  rcases List.mem_append.mp hc with hzero | hdigit
  · rw [(List.mem_replicate.mp hzero).2]
    rfl
  · exact isDigit_of_mem_toDigits hdigit

/-- If a zero stands in front of the padded digits, then one digit stands before the point. -/
private theorem Number.length_paddedDigits_of_zero {n : Number}
    (h : n.paddedDigits.head? = some '0') : n.paddedDigits.length = n.places + 1 := by
  have hpos : 0 < (Nat.toDigits 10 n.digits).length := Nat.length_toDigits_pos
  rw [paddedDigits, List.length_append, List.length_replicate]
  by_cases hzeros : n.places + 1 ≤ (Nat.toDigits 10 n.digits).length
  · -- without padding the zero is the number itself
    rw [paddedDigits, Nat.sub_eq_zero_of_le hzeros, List.replicate_zero, List.nil_append] at h
    have hdigits : n.digits = 0 :=
      Decidable.byContradiction fun hne => head?_toDigits_ne_zero hne h
    rw [hdigits, Nat.toDigits_zero] at hzeros ⊢
    simp only [List.length_singleton] at hzeros ⊢
    omega
  · omega

/-- The padded digits before the point. -/
private def Number.wholeDigits (n : Number) : List Char :=
  n.paddedDigits.take (n.paddedDigits.length - n.places)

/-- The padded digits behind the point. -/
private def Number.fractionDigits (n : Number) : List Char :=
  n.paddedDigits.drop (n.paddedDigits.length - n.places)

/-- The digits before the point are those that are no places. -/
private theorem Number.length_wholeDigits (n : Number) :
    n.wholeDigits.length = n.paddedDigits.length - n.places := by
  rw [wholeDigits, List.length_take]
  omega

/-- There are as many digits behind the point as places. -/
private theorem Number.length_fractionDigits (n : Number) :
    n.fractionDigits.length = n.places := by
  have hlt := n.places_lt_length_paddedDigits
  rw [fractionDigits, List.length_drop]
  omega

/-- A number is written as the digits before the point and, if there are places, the point and the
    others. -/
private theorem Number.writtenDigits_eq (n : Number) : n.writtenDigits =
    n.wholeDigits ++ if n.fractionDigits = [] then [] else '.' :: n.fractionDigits := by
  have hlength := n.length_fractionDigits
  by_cases hplaces : n.places = 0
  · -- without places there is neither a point nor padding
    have hpadded : n.paddedDigits = Nat.toDigits 10 n.digits := by
      have hpos : 0 < (Nat.toDigits 10 n.digits).length := Nat.length_toDigits_pos
      rw [paddedDigits, hplaces, Nat.sub_eq_zero_of_le (by omega), List.replicate_zero,
        List.nil_append]
    have hnone : n.fractionDigits = [] := List.length_eq_zero_iff.mp (hlength.trans hplaces)
    rw [if_pos hnone, List.append_nil, wholeDigits, hplaces, Nat.sub_zero, List.take_length,
      writtenDigits, if_pos hplaces, hpadded]
  · have hsome : n.fractionDigits ≠ [] := by
      intro hnil
      rw [hnil, List.length_nil] at hlength
      exact hplaces hlength.symm
    have hpadded : n.paddedDigits.length =
        (List.replicate (n.places + 1 - (Nat.toDigits 10 n.digits).length) '0').length +
          (Nat.toDigits 10 n.digits).length := by
      rw [paddedDigits, List.length_append]
    rw [writtenDigits, if_neg hplaces, if_neg hsome, ← hpadded, ← paddedDigits, ← wholeDigits,
      n.length_wholeDigits, ← fractionDigits]

/-- The digits before the point are accepted as such. -/
private theorem Number.isWholePart_wholeDigits (n : Number) : isWholePart n.wholeDigits = true := by
  have hlt := n.places_lt_length_paddedDigits
  have hlength := n.length_wholeDigits
  have hne : n.wholeDigits ≠ [] := by
    intro hnil
    rw [hnil, List.length_nil] at hlength
    omega
  have hzero : n.wholeDigits.head? ≠ some '0' ∨ n.wholeDigits.length = 1 := by
    -- zeros are put in front of the number only up to the digit before the point
    by_cases hhead : n.paddedDigits.head? = some '0'
    · refine .inr ?_
      rw [hlength, length_paddedDigits_of_zero hhead]
      omega
    · refine .inl ?_
      rwa [wholeDigits, List.head?_take, if_neg (by omega)]
  simp only [isWholePart, List.isEmpty_eq_false_iff.mpr hne, Bool.not_false, Bool.true_and,
    Bool.or_eq_true, decide_eq_true_eq]
  exact hzero

/-- Every number has its parts. -/
theorem Number.exists_parts (n : Number) : ∃ whole fraction, n.Parts whole fraction := by
  refine ⟨n.wholeDigits, n.fractionDigits, n.writtenDigits_eq, ?_, n.isWholePart_wholeDigits, ?_,
    n.length_fractionDigits, ?_⟩
  · exact fun c hc => isDigit_of_mem_paddedDigits (List.mem_of_mem_take hc)
  · exact fun c hc => isDigit_of_mem_paddedDigits (List.mem_of_mem_drop hc)
  · rw [wholeDigits, fractionDigits, List.take_append_drop, paddedDigits,
      decimalValue_append_toDigits]

/-- A sign in front of a text without one is read. -/
private theorem minusSign_append {text : List Char} (negative : Bool)
    (h : text.head? ≠ some '-') :
    minusSign ((if negative then ['-'] else []) ++ text) = (negative, text) := by
  cases negative with
  | false => exact minusSign_of_head? h
  | true => rfl

/-- A number is read back if what follows its digits is read as its exponent. -/
private theorem Number.ofChars?_of_parts {n : Number} {whole fraction tail : List Char}
    (hparts : n.Parts whole fraction) (hexponent : exponent? tail = some n.exponent)
    (htail : ∀ d, tail.head? = some d → d.isDigit = false ∧ d ≠ '.') :
    ofChars? ((if n.negative then ['-'] else []) ++ n.writtenDigits ++ tail) = some n := by
  -- the whole part ends at the point, or else where the exponent starts
  have hbehind : ∀ d, ((if fraction = [] then [] else '.' :: fraction) ++ tail).head? = some d →
      d.isDigit = false := by
    intro d hd
    by_cases hempty : fraction = []
    · rw [if_pos hempty] at hd
      exact (htail d hd).1
    · rw [if_neg hempty] at hd
      cases hd
      rfl
  -- the sign is read off, since the digits start with none
  have hfirst : (whole ++ ((if fraction = [] then [] else '.' :: fraction) ++ tail)).head? ≠
      some '-' := by
    have hpart := hparts.isWholePart
    cases whole with
    | nil => cases hpart
    | cons c whole =>
      rintro ⟨⟩
      exact absurd (hparts.isDigit_whole '-' (by simp)) (by decide)
  -- and the fraction, if there is one, behind the whole part
  have hfraction : fraction? ((if fraction = [] then [] else '.' :: fraction) ++ tail) =
      some (fraction, tail) := by
    by_cases hempty : fraction = []
    · rw [if_pos hempty, hempty]
      exact fraction?_of_head? fun hd => (htail '.' hd).2 rfl
    · rw [if_neg hempty]
      exact fraction?_point hempty hparts.isDigit_fraction fun d hd => (htail d hd).1
  rw [hparts.writtenDigits_eq, List.append_assoc, List.append_assoc, ofChars?,
    minusSign_append _ hfirst]
  simp only [takeWhile_append_of_head? hparts.isDigit_whole hbehind,
    dropWhile_append_of_head? hparts.isDigit_whole hbehind, hparts.isWholePart, if_true,
    hfraction, hexponent, hparts.value_eq, hparts.length_fraction, Option.bind_eq_bind,
    Option.bind_some, Option.pure_def]

/-- What is written for a number is read as this number. -/
theorem Number.ofChars?_written (n : Number) : Number.ofChars? n.written = some n := by
  obtain ⟨whole, fraction, hparts⟩ := n.exists_parts
  rw [written]
  cases hexponent : n.exponent with
  | none => exact ofChars?_of_parts hparts (by rw [hexponent]; rfl) (by simp)
  | some e =>
    refine ofChars?_of_parts hparts (by rw [hexponent]; exact exponent?_written e) ?_
    rintro d ⟨⟩
    decide

/-- A number starts with its sign or with a digit. -/
private theorem Number.written_eq_cons (n : Number) : ∃ c tail, n.written = c :: tail ∧
    (c = '-' || c.isDigit) = true := by
  obtain ⟨whole, fraction, hparts⟩ := n.exists_parts
  have hpart := hparts.isWholePart
  rw [written, hparts.writtenDigits_eq]
  cases n.negative with
  | true => exact ⟨_, _, rfl, rfl⟩
  | false =>
    cases whole with
    | nil => cases hpart
    | cons c whole =>
      exact ⟨c, _, rfl, by simp [hparts.isDigit_whole c (by simp)]⟩

private theorem isNumberChar_of_isDigit {c : Char} (hc : c.isDigit = true) :
    isNumberChar c = true := by
  simp [isNumberChar, hc]

/-- A number is written with characters of numbers only. -/
private theorem Number.isNumberChar_of_mem_written {n : Number} {c : Char} (hc : c ∈ n.written) :
    isNumberChar c = true := by
  obtain ⟨whole, fraction, hparts⟩ := n.exists_parts
  rw [written, hparts.writtenDigits_eq] at hc
  -- the parts in order: sign, digits, point, digits, and the exponent with its own sign
  rcases List.mem_append.mp hc with hc | hexponent
  · rcases List.mem_append.mp hc with hsign | hdigits
    · split at hsign
      · rw [List.mem_singleton.mp hsign]
        rfl
      · cases hsign
    · rcases List.mem_append.mp hdigits with hwhole | hfraction
      · exact isNumberChar_of_isDigit (hparts.isDigit_whole c hwhole)
      · split at hfraction
        · cases hfraction
        · rcases List.mem_cons.mp hfraction with rfl | hfraction
          · rfl
          · exact isNumberChar_of_isDigit (hparts.isDigit_fraction c hfraction)
  · split at hexponent
    · cases hexponent
    · rcases List.mem_append.mp hexponent with hsign | hdigits
      · rcases List.mem_cons.mp hsign with rfl | hsign
        · rfl
        · split at hsign
          · rw [List.mem_singleton.mp hsign]
            rfl
          · cases hsign
      · exact isNumberChar_of_isDigit (isDigit_of_mem_toDigits hdigits)

/-- A number is written as one token. -/
theorem Token.ofChars?_written_number (n : Number) {rest : List Char}
    (hrest : ∀ d, rest.head? = some d → isNumberChar d = false) :
    Token.ofChars? (n.written ++ rest) = (Token.ofChars? rest).map (.number n :: ·) := by
  obtain ⟨c, tail, hwritten, hc⟩ := n.written_eq_cons
  have hn := n.ofChars?_written
  have htail : ∀ d ∈ tail, isNumberChar d = true := by
    intro d hd
    exact Number.isNumberChar_of_mem_written (by rw [hwritten]; exact List.mem_cons_of_mem _ hd)
  rw [hwritten] at hn ⊢
  exact ofChars?_number hc htail hn hrest

/-! ## What may follow a scalar -/

/-- A text that does not continue a number or a word. -/
def Ends (rest : List Char) : Prop :=
  ∀ d, rest.head? = some d → isNumberChar d = false ∧ d.isAlpha = false

theorem ends_nil : Ends [] := by
  simp [Ends]

private theorem ends_cons {c : Char} (hc : isNumberChar c = false ∧ c.isAlpha = false)
    (rest : List Char) : Ends (c :: rest) := by
  rintro d ⟨⟩
  exact hc

/-- A new line, or none, leaves the end where it is. -/
theorem ends_newline {layout : Layout} {depth : Nat} {rest : List Char} (hrest : Ends rest) :
    Ends (layout.newline depth ++ rest) := by
  cases layout with
  | compact => exact hrest
  | pretty => exact ends_cons (by decide) _

/-- Further items start with a comma. -/
theorem ends_writtenItems {layout : Layout} {depth : Nat} (items : List Json) {rest : List Char}
    (hrest : Ends rest) : Ends (writtenItems layout depth items ++ rest) := by
  cases items with
  | nil => exact hrest
  | cons item items => exact ends_cons (by decide) _

/-- Further members start with a comma. -/
theorem ends_writtenMembers {layout : Layout} {depth : Nat} (members : List (Text × Json))
    {rest : List Char} (hrest : Ends rest) :
    Ends (writtenMembers layout depth members ++ rest) := by
  cases members with
  | nil => exact hrest
  | cons member members => exact ends_cons (by decide) _

/-! ## Taking written parts -/

/-- A text of characters only is a list of them. -/
theorem Text.exists_of_chars? {t : Text} (ht : t.chars?.isSome = true) :
    ∃ cs : List Char, t = cs.map .char := by
  induction t with
  | nil => exact ⟨[], rfl⟩
  | cons u t ih =>
    cases u with
    | half n => cases ht
    | char c =>
      rw [chars?, Option.isSome_map] at ht
      obtain ⟨cs, rfl⟩ := ih ht
      exact ⟨c :: cs, rfl⟩

namespace Reading

/-- Where a value may come, with these arrays and objects around it. -/
def Opens (r : Reading) (frames : List Frame) : Prop :=
  ∀ t, t ≠ .closeBracket → r.step t = startValue frames t

theorem opens_value (frames : List Frame) : (value frames).Opens frames :=
  fun _ _ => rfl

/-- Where a first item is expected, it is taken into the new array. -/
theorem opens_firstItem (frames : List Frame) :
    (firstItem frames).Opens (.array [] :: frames) := by
  intro t ht
  cases t <;> first | rfl | exact absurd rfl ht

/-- A new line makes no difference to what is read. -/
theorem readChars?_newline (r : Reading) (layout : Layout) (depth : Nat) (rest : List Char) :
    r.readChars? (layout.newline depth ++ rest) = r.readChars? rest := by
  cases layout with
  | compact => rfl
  | pretty =>
    rw [Layout.newline, List.cons_append, readChars?_space (by decide)]
    induction 2 * depth with
    | zero => rfl
    | succ n ih => rw [List.replicate_succ, List.cons_append, readChars?_space (by decide), ih]

/-- A mark in front takes one step. -/
theorem readChars?_mark {r r' : Reading} {c : Char} {t : Token} (hc : Token.ofMark? c = some t)
    (hstep : r.step t = some r') (rest : List Char) :
    r.readChars? (c :: rest) = r'.readChars? rest := by
  rw [readChars?_of_ofChars? (Token.ofChars?_mark hc rest), hstep, Option.bind_some]

/-- A string in front takes one step. -/
theorem readChars?_string {r r' : Reading} {t : Text} (ht : t.chars?.isSome = true)
    (hstep : r.step (.string t) = some r') (rest : List Char) :
    r.readChars? (t.written ++ rest) = r'.readChars? rest := by
  obtain ⟨cs, rfl⟩ := Text.exists_of_chars? ht
  rw [readChars?_of_ofChars? (Token.ofChars?_string cs rest), hstep, Option.bind_some]

/-- A word in front takes one step. -/
theorem readChars?_word {r r' : Reading} {word : List Char} {t : Token}
    (hword : Token.ofWord? word = some t) (hstep : r.step t = some r') {rest : List Char}
    (hrest : Ends rest) : r.readChars? (word ++ rest) = r'.readChars? rest := by
  rw [readChars?_of_ofChars? (Token.ofChars?_word hword fun d hd => (hrest d hd).2), hstep,
    Option.bind_some]

/-- A number in front takes one step. -/
theorem readChars?_number {r r' : Reading} {n : Number} (hstep : r.step (.number n) = some r')
    {rest : List Char} (hrest : Ends rest) :
    r.readChars? (n.written ++ rest) = r'.readChars? rest := by
  rw [readChars?_of_ofChars? (Token.ofChars?_written_number n fun d hd => (hrest d hd).1), hstep,
    Option.bind_some]

/-- A name with its colon opens the value of the member. -/
theorem readChars?_name {r : Reading} {members : List (Text × Json)} {frames : List Frame}
    {name : Text} (hname : name.chars?.isSome = true) (layout : Layout)
    (hstep : r.step (.string name) = some (.colon members name frames)) (rest : List Char) :
    r.readChars? (name.written ++ (layout.colon ++ rest)) =
      (value (.member members name :: frames)).readChars? rest := by
  rw [readChars?_string hname hstep]
  cases layout with
  | compact => exact readChars?_mark rfl rfl rest
  | pretty =>
    exact (readChars?_mark rfl rfl (' ' :: rest)).trans (readChars?_space (by decide) _ rest)

end Reading

/-! ## Values -/

/-- A closing bracket, maybe on a new line, ends a number or a word. -/
private theorem ends_close {layout : Layout} {depth : Nat} {c : Char} (hc : c = ']' ∨ c = '\x7d')
    (rest : List Char) : Ends (layout.newline depth ++ c :: rest) := by
  refine ends_newline (ends_cons ?_ rest)
  rcases hc with rfl | rfl <;> decide

mutual

/-- Where a value may come, a written value is taken as a whole. -/
theorem readChars?_written (layout : Layout) (depth : Nat) {r : Reading} {frames : List Frame}
    (hr : r.Opens frames) {rest : List Char} (hrest : Ends rest) : ∀ v : Json, v.isPlain = true →
      r.readChars? (written layout depth v ++ rest) = (Reading.complete v frames).readChars? rest
  | null, _ => Reading.readChars?_word rfl (hr .null nofun) hrest
  | bool true, _ => Reading.readChars?_word rfl (hr (.bool true) nofun) hrest
  | bool false, _ => Reading.readChars?_word rfl (hr (.bool false) nofun) hrest
  | number n, _ => Reading.readChars?_number (hr (.number n) nofun) hrest
  | string t, ht => by
    rw [isPlain] at ht
    exact Reading.readChars?_string ht (hr (.string t) nofun) rest
  | array [], _ => by
    rw [written, List.cons_append, Reading.readChars?_mark rfl (hr .openBracket nofun)]
    exact Reading.readChars?_mark rfl rfl rest
  | array (item :: items), h => by
    rw [isPlain, itemsPlain, Bool.and_eq_true] at h
    -- what is behind the first item, a comma or a closing bracket, cannot continue it
    simp only [written, List.cons_append, List.append_assoc, List.nil_append]
    rw [Reading.readChars?_mark rfl (hr .openBracket nofun), Reading.readChars?_newline,
      readChars?_written layout (depth + 1) (Reading.opens_firstItem frames)
        (ends_writtenItems items (ends_close (.inl rfl) rest)) item h.1,
      readChars?_writtenItems layout (depth + 1) depth rest items h.2]
    rfl
  | object [], _ => by
    rw [written, List.cons_append, Reading.readChars?_mark rfl (hr .openBrace nofun)]
    exact Reading.readChars?_mark rfl rfl rest
  -- a name with its colon comes in front of each value
  | object ((name, value) :: members), h => by
    rw [isPlain, membersPlain, Bool.and_eq_true, Bool.and_eq_true] at h
    simp only [written, List.cons_append, List.append_assoc, List.nil_append]
    rw [Reading.readChars?_mark rfl (hr .openBrace nofun), Reading.readChars?_newline,
      Reading.readChars?_name h.1.1 layout rfl,
      readChars?_written layout (depth + 1) (Reading.opens_value _)
        (ends_writtenMembers members (ends_close (.inr rfl) rest)) value h.1.2,
      readChars?_writtenMembers layout (depth + 1) depth rest members h.2]
    rfl

/-- The items after the first, up to the closing bracket. -/
theorem readChars?_writtenItems (layout : Layout) (depth outer : Nat) (rest : List Char)
    {frames : List Frame} : ∀ items : List Json, itemsPlain items = true →
      ∀ {done : List Json} {v : Json},
        (Reading.complete v (.array done :: frames)).readChars?
            (writtenItems layout depth items ++ (layout.newline outer ++ ']' :: rest)) =
          (Reading.complete (.array ((v :: done).reverse ++ items)) frames).readChars? rest
  -- behind the last item the array is complete
  | [], _, done, v => by
    rw [writtenItems, List.nil_append, Reading.readChars?_newline, List.append_nil]
    exact Reading.readChars?_mark rfl rfl rest
  -- a comma, and the next item is read on top of those that are done
  | item :: items, h, done, v => by
    rw [itemsPlain, Bool.and_eq_true] at h
    simp only [writtenItems, List.cons_append, List.append_assoc]
    rw [Reading.readChars?_mark rfl rfl, Reading.readChars?_newline,
      readChars?_written layout depth (Reading.opens_value _)
        (ends_writtenItems items (ends_close (.inl rfl) rest)) item h.1,
      readChars?_writtenItems layout depth outer rest items h.2]
    simp only [List.reverse_cons, List.append_assoc, List.cons_append, List.nil_append]

/-- The members after the first, up to the closing brace. -/
theorem readChars?_writtenMembers (layout : Layout) (depth outer : Nat) (rest : List Char)
    {frames : List Frame} : ∀ members : List (Text × Json), membersPlain members = true →
      ∀ {done : List (Text × Json)} {key : Text} {v : Json},
        (Reading.complete v (.member done key :: frames)).readChars?
            (writtenMembers layout depth members ++ (layout.newline outer ++ '\x7d' :: rest)) =
          (Reading.complete (.object (((key, v) :: done).reverse ++ members)) frames).readChars?
            rest
  | [], _, done, key, v => by
    rw [writtenMembers, List.nil_append, Reading.readChars?_newline, List.append_nil]
    exact Reading.readChars?_mark rfl rfl rest
  | (name, value) :: members, h, done, key, v => by
    rw [membersPlain, Bool.and_eq_true, Bool.and_eq_true] at h
    simp only [writtenMembers, List.cons_append, List.append_assoc]
    rw [Reading.readChars?_mark rfl rfl, Reading.readChars?_newline,
      Reading.readChars?_name h.1.1 layout rfl,
      readChars?_written layout depth (Reading.opens_value _)
        (ends_writtenMembers members (ends_close (.inr rfl) rest)) value h.1.2,
      readChars?_writtenMembers layout depth outer rest members h.2]
    simp only [List.reverse_cons, List.append_assoc, List.cons_append, List.nil_append]

end

/-- A document whose strings are texts is read back in both layouts. -/
theorem parse?_print {v : Json} (hv : v.isPlain = true) (layout : Layout) :
    parse? (v.print layout) = some v := by
  have hread := readChars?_written layout 0 (Reading.opens_value []) ends_nil v hv
  rw [List.append_nil, Reading.readChars?_nil] at hread
  rw [parse?_eq, print, String.toList_ofList, hread]
  rfl

end Tinct.Json
