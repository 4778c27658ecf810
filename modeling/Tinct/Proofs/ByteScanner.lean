import Tinct.Proofs.StringExtents
import Tinct.Proofs.TextOrder

/-!
# Scanning the bytes of Python string literals

The end of a string literal can be looked for in the bytes of the text, stepping over two bytes at
each backslash.  Such a scanner can come to lie within the bytes of a character, but these are no
quotes, no line feeds and no backslashes, so it stops where the scanner of characters does, and
never within a character.

## Key results

- `StepsOver.escape`: behind a backslash the scanner comes to the end of a character
- `byteExtent_eq`: scanning bytes gives the same extents as scanning characters
- `Lexer.stringLiteral_extent`: the text and the category of every string literal
-/

namespace Tinct.Lexer

namespace Python

/-! ## Places in a row of bytes -/

/-- From a place on, the given bytes are left. -/
structure Leaves (bytes : List UInt8) (place : Nat) (rest : List UInt8) : Prop where
  le : place ≤ bytes.length
  drop_eq : bytes.drop place = rest

/-- The place and the bytes that are left make up all bytes. -/
theorem Leaves.length_eq {bytes rest : List UInt8} {place : Nat} (h : Leaves bytes place rest) :
    bytes.length = place + rest.length := by
  have hle := h.le
  have hlength := congrArg List.length h.drop_eq
  rw [List.length_drop] at hlength
  omega

/-- Behind a run of the bytes that are left, the others are left. -/
theorem Leaves.move {bytes run rest : List UInt8} {place : Nat}
    (h : Leaves bytes place (run ++ rest)) : Leaves bytes (place + run.length) rest where
  le := by
    have hlength := h.length_eq
    rw [List.length_append] at hlength
    omega
  drop_eq := by rw [← List.drop_drop, h.drop_eq, List.drop_left]

theorem Leaves.next {b : UInt8} {bytes rest : List UInt8} {place : Nat}
    (h : Leaves bytes place (b :: rest)) : Leaves bytes (place + 1) rest :=
  Leaves.move (show Leaves bytes place ([b] ++ rest) from h)

/-- The byte at a place is the first of those that are left. -/
theorem Leaves.exists_getElem {b : UInt8} {bytes rest : List UInt8} {place : Nat}
    (h : Leaves bytes place (b :: rest)) : ∃ hlt : place < bytes.length, bytes[place] = b := by
  have hlt : place < bytes.length := by
    rw [h.length_eq, List.length_cons]
    omega
  have hcons := h.drop_eq
  rw [List.drop_eq_getElem_cons hlt] at hcons
  exact ⟨hlt, (List.cons.inj hcons).1⟩

/-! ## Scanning bytes -/

/-- The first place, from a given one on, where a mark stands in a row of bytes; at a backslash two
    bytes are stepped over. -/
def closingFrom (bytes mark : List UInt8) (place : Nat) : Option Nat :=
  if h : place < bytes.length then
    if bytes[place] = '\\'.toUInt8 then closingFrom bytes mark (place + 2)
    else if mark.isPrefixOf (bytes.drop place) then some place
    else closingFrom bytes mark (place + 1)
  else none
termination_by bytes.length - place

/-- Where a literal on one line ends in a row of bytes, from a given place on. -/
def lineEndFrom (bytes : List UInt8) (quote : UInt8) (place : Nat) : Nat :=
  if h : place < bytes.length then
    if bytes[place] = '\n'.toUInt8 then place
    else if bytes[place] = '\\'.toUInt8 then lineEndFrom bytes quote (place + 2)
    else if bytes[place] = quote then place + 1
    else lineEndFrom bytes quote (place + 1)
  else bytes.length
termination_by bytes.length - place

/-- The form of a literal that a quote opens in front of the given bytes, and how many of these
    belong to it. -/
def byteExtent (quote : UInt8) (behind : List UInt8) : StringForm × Nat :=
  if [quote, quote].isPrefixOf behind then
    let body := behind.drop 2
    let reach := ((closingFrom body [quote, quote, quote] 0).map (· + 3)).getD body.length
    (.doc, 2 + reach)
  else (if quote = '\''.toUInt8 then .single else .double, lineEndFrom behind quote 0)

theorem closingFrom_of_le {bytes mark : List UInt8} {place : Nat} (h : bytes.length ≤ place) :
    closingFrom bytes mark place = none := by
  rw [closingFrom, dif_neg (Nat.not_lt.mpr h)]

/-- One step of the search for a mark, told by the bytes that are left. -/
theorem closingFrom_cons {b : UInt8} {bytes rest : List UInt8} {place : Nat}
    (h : Leaves bytes place (b :: rest)) (mark : List UInt8) :
    closingFrom bytes mark place =
      if b = '\\'.toUInt8 then closingFrom bytes mark (place + 2)
      else if mark <+: b :: rest then some place
      else closingFrom bytes mark (place + 1) := by
  obtain ⟨hlt, hget⟩ := h.exists_getElem
  rw [closingFrom, dif_pos hlt, hget, h.drop_eq]
  simp only [List.isPrefixOf_iff_prefix]

theorem lineEndFrom_of_le {bytes : List UInt8} {quote : UInt8} {place : Nat}
    (h : bytes.length ≤ place) : lineEndFrom bytes quote place = bytes.length := by
  rw [lineEndFrom, dif_neg (Nat.not_lt.mpr h)]

/-- One step of the search for the end of a literal on one line. -/
theorem lineEndFrom_cons {b : UInt8} {bytes rest : List UInt8} {place : Nat}
    (h : Leaves bytes place (b :: rest)) (quote : UInt8) :
    lineEndFrom bytes quote place =
      if b = '\n'.toUInt8 then place
      else if b = '\\'.toUInt8 then lineEndFrom bytes quote (place + 2)
      else if b = quote then place + 1
      else lineEndFrom bytes quote (place + 1) := by
  obtain ⟨hlt, hget⟩ := h.exists_getElem
  rw [lineEndFrom, dif_pos hlt, hget]

/-! ## Bytes that a scan steps over -/

section StepsOver

variable {β : Type} {scan : Nat → β} {bytes : List UInt8} {place : Nat} {c : Char}
  {text : List Char}

/-- A scan steps over the bytes from 128 on, one by one. -/
def StepsOver (scan : Nat → β) (bytes : List UInt8) : Prop :=
  ∀ ⦃place : Nat⦄ ⦃b : UInt8⦄ ⦃rest : List UInt8⦄, Leaves bytes place (b :: rest) →
    128 ≤ b.toNat → scan place = scan (place + 1)

/-- Such bytes are stepped over also in a row. -/
theorem StepsOver.run (hs : StepsOver scan bytes) {run rest : List UInt8}
    (h : Leaves bytes place (run ++ rest)) (hrun : ∀ x ∈ run, 128 ≤ x.toNat) :
    scan place = scan (place + run.length) := by
  induction run generalizing place with
  | nil => rfl
  -- the induction is on the run: its first byte is stepped over, and then the others
  | cons b run ih =>
    obtain ⟨hb, hmore⟩ := List.forall_mem_cons.mp hrun
    rw [List.cons_append] at h
    rw [hs h hb, ih h.next hmore, List.length_cons, Nat.add_assoc, Nat.add_comm 1]

/-- Behind the bytes of a character, those of the rest of the text are left. -/
theorem Leaves.char (h : Leaves bytes place ((c :: text).flatMap String.utf8EncodeChar)) :
    Leaves bytes (place + (String.utf8EncodeChar c).length)
      (text.flatMap String.utf8EncodeChar) := by
  rw [List.flatMap_cons] at h
  exact h.move

/-- If the first byte of a character is stepped over, then all of the character is. -/
theorem StepsOver.char (hs : StepsOver scan bytes)
    (h : Leaves bytes place ((c :: text).flatMap String.utf8EncodeChar))
    (hstep : scan place = scan (place + 1)) :
    scan place = scan (place + (String.utf8EncodeChar c).length) := by
  obtain ⟨b, more, hbytes, hmore, -⟩ := exists_bytes c
  rw [List.flatMap_cons, hbytes, List.cons_append] at h
  rw [hbytes, List.length_cons, hstep, hs.run h.next hmore, Nat.add_assoc, Nat.add_comm 1]

/-- The two bytes that are stepped over at a backslash may end within the character behind it, but
    then the rest of this character is stepped over, too. -/
theorem StepsOver.escape (hs : StepsOver scan bytes)
    (h : Leaves bytes place (('\\' :: c :: text).flatMap String.utf8EncodeChar))
    (hstep : scan place = scan (place + 2)) :
    scan place = scan (place + (String.utf8EncodeChar '\\').length +
      (String.utf8EncodeChar c).length) := by
  obtain ⟨b, more, hbytes, hmore, -⟩ := exists_bytes c
  -- the scanner lies behind the first byte of the hidden character
  have hbackslash : (String.utf8EncodeChar '\\').length = 1 := rfl
  -- one byte for the backslash, one for the first byte behind it, and the others
  have hplace : place + 1 + 1 + more.length = place + 1 + (more.length + 1) := by omega
  have hbehind := h.char
  rw [List.flatMap_cons, hbytes, List.cons_append, hbackslash] at hbehind
  rw [hstep, hs.run hbehind.next hmore, hbackslash, hbytes, List.length_cons, hplace]

end StepsOver

section Scanners

variable {quote : Char} {bytes : List UInt8} {place : Nat}

/-- A byte from 128 on is no backslash and starts no mark of low quotes. -/
theorem stepsOver_closingFrom (hlow : quote.toNat < 128) (bytes : List UInt8) :
    StepsOver (closingFrom bytes [quote.toUInt8, quote.toUInt8, quote.toUInt8]) bytes := by
  intro place b rest h hb
  have hbackslash : b ≠ '\\'.toUInt8 := by
    rintro rfl
    exact absurd hb (by decide)
  have hmark : ¬ [quote.toUInt8, quote.toUInt8, quote.toUInt8] <+: b :: rest := by
    intro hstart
    rw [← (List.cons_prefix_cons.mp hstart).1, toNat_toUInt8_of_lt hlow] at hb
    omega
  rw [closingFrom_cons h, if_neg hbackslash, if_neg hmark]

/-- A byte from 128 on is no line feed, no backslash and no low quote. -/
theorem stepsOver_lineEndFrom (hlow : quote.toNat < 128) (bytes : List UInt8) :
    StepsOver (lineEndFrom bytes quote.toUInt8) bytes := by
  intro place b rest h hb
  have hne : ∀ d : Char, d.toNat < 128 → b ≠ d.toUInt8 := by
    rintro d hd rfl
    rw [toNat_toUInt8_of_lt hd] at hb
    omega
  rw [lineEndFrom_cons h, if_neg (hne _ (by decide)), if_neg (hne _ (by decide)),
    if_neg (hne _ hlow)]

variable {c : Char} {rest text : List Char}

/-- At the start of a character its first byte tells what the character tells. -/
theorem closingFrom_char (hlow : quote.toNat < 128)
    (h : Leaves bytes place ((c :: rest).flatMap String.utf8EncodeChar)) :
    closingFrom bytes [quote.toUInt8, quote.toUInt8, quote.toUInt8] place =
      if c = '\\' then
        closingFrom bytes [quote.toUInt8, quote.toUInt8, quote.toUInt8] (place + 2)
      else if [quote, quote, quote].isPrefixOf (c :: rest) then some place
      else closingFrom bytes [quote.toUInt8, quote.toUInt8, quote.toUInt8] (place + 1) := by
  have hmark : [quote.toUInt8, quote.toUInt8, quote.toUInt8] =
      [quote, quote, quote].flatMap String.utf8EncodeChar := by
    simp [utf8EncodeChar_of_lt hlow]
  -- the first byte of a character tells whether it is a given low one
  obtain ⟨b, more, hbytes, -, htells⟩ := exists_bytes c
  have hstart : b :: (more ++ rest.flatMap String.utf8EncodeChar) =
      (c :: rest).flatMap String.utf8EncodeChar := by
    rw [List.flatMap_cons, hbytes, List.cons_append]
  rw [← hstart] at h
  rw [closingFrom_cons h, hstart, hmark]
  simp only [htells '\\' (by decide), flatMap_utf8EncodeChar_prefix_iff, List.isPrefixOf_iff_prefix]

/-- At the start of a character one step is told by the character, too, on one line. -/
theorem lineEndFrom_char (hlow : quote.toNat < 128)
    (h : Leaves bytes place ((c :: rest).flatMap String.utf8EncodeChar)) :
    lineEndFrom bytes quote.toUInt8 place =
      if c = '\n' then place
      else if c = '\\' then lineEndFrom bytes quote.toUInt8 (place + 2)
      else if c = quote then place + 1
      else lineEndFrom bytes quote.toUInt8 (place + 1) := by
  obtain ⟨b, more, hbytes, -, htells⟩ := exists_bytes c
  rw [List.flatMap_cons, hbytes, List.cons_append] at h
  rw [lineEndFrom_cons h]
  simp only [htells '\n' (by decide), htells '\\' (by decide), htells quote hlow]

/-! ## The two scanners agree -/

/-- The scanner of bytes ends a literal in three quotes where the scanner of characters does. -/
theorem closingFrom_eq (hlow : quote.toNat < 128) (hquote : quote ≠ '\\')
    (h : Leaves bytes place (text.flatMap String.utf8EncodeChar)) :
    ((closingFrom bytes [quote.toUInt8, quote.toUInt8, quote.toUInt8] place).map (· + 3)).getD
        bytes.length =
      place + ((text.take (docLength quote text)).flatMap String.utf8EncodeChar).length := by
  have hs := stepsOver_closingFrom hlow bytes
  -- the scanners meet at the start of every character that the one of characters comes to
  fun_induction docLength quote text generalizing place with
  | case1 =>
    have hend : bytes.length = place := h.length_eq
    rw [closingFrom_of_le (Nat.le_of_eq hend)]
    exact hend
  | case2 c rest ih =>
    -- a backslash hides the character behind it
    have hescape := hs.escape h (by rw [closingFrom_char hlow h, if_pos rfl])
    rw [hescape, ih h.char.char, List.take_succ_cons, List.take_succ_cons]
    simp only [List.flatMap_cons, List.length_append, Nat.add_assoc]
  | case3 c rest hescape hclosed =>
    -- the three quotes are here, and each of them is one byte
    have hstart := List.isPrefixOf_iff_prefix.mp hclosed
    have htake : (c :: rest).take 3 = [quote, quote, quote] :=
      (List.prefix_iff_eq_take.mp hstart).symm
    have hc : c ≠ '\\' := (List.cons_prefix_cons.mp hstart).1 ▸ hquote
    rw [closingFrom_char hlow h, if_neg hc, if_pos hclosed, htake]
    simp [utf8EncodeChar_of_lt hlow]
  | case4 c rest hescape hopen ih =>
    rcases ne_backslash_or_last hescape with hc | ⟨rfl, rfl⟩
    · -- any other character is stepped over
      have hstep := hs.char h (by rw [closingFrom_char hlow h, if_neg hc, if_neg hopen])
      rw [hstep, ih h.char, List.take_succ_cons, List.flatMap_cons, List.length_append,
        Nat.add_assoc]
    · -- stepping over two bytes leaves the text
      have hend : bytes.length = place + 1 := h.length_eq
      rw [closingFrom_char hlow h, if_pos rfl, closingFrom_of_le (by omega)]
      exact hend

/-- The scanner of bytes ends a literal on one line where the scanner of characters does. -/
theorem lineEndFrom_eq (hlow : quote.toNat < 128) (hquote : quote ≠ '\\')
    (h : Leaves bytes place (text.flatMap String.utf8EncodeChar)) :
    lineEndFrom bytes quote.toUInt8 place =
      place + ((text.take (lineLength quote text)).flatMap String.utf8EncodeChar).length := by
  have hs := stepsOver_lineEndFrom hlow bytes
  fun_induction lineLength quote text generalizing place with
  | case1 =>
    have hend : bytes.length = place := h.length_eq
    rw [lineEndFrom_of_le (Nat.le_of_eq hend)]
    exact hend
  | case2 c rest ih =>
    -- a backslash hides the character behind it
    have hescape := hs.escape h (by rw [lineEndFrom_char hlow h, if_neg (by decide), if_pos rfl])
    rw [hescape, ih h.char.char, List.take_succ_cons, List.take_succ_cons]
    simp only [List.flatMap_cons, List.length_append, Nat.add_assoc]
  | case3 rest hescape =>
    -- a line feed ends the literal in front of it
    rw [lineEndFrom_char hlow h, if_pos rfl]
    rfl
  | case4 rest hescape hline =>
    -- the quote ends it, and is one byte
    rw [lineEndFrom_char hlow h, if_neg hline, if_neg hquote, if_pos rfl, List.take_succ_cons,
      List.take_zero, List.flatMap_singleton, utf8EncodeChar_of_lt hlow]
    rfl
  | case5 c rest hescape hline hother ih =>
    rcases ne_backslash_or_last hescape with hc | ⟨rfl, rfl⟩
    · -- any other character is stepped over
      have hstep := hs.char h
        (by rw [lineEndFrom_char hlow h, if_neg hline, if_neg hc, if_neg hother])
      rw [hstep, ih h.char, List.take_succ_cons, List.flatMap_cons, List.length_append,
        Nat.add_assoc]
    · -- a backslash at the end is stepped over with the end of the text
      have hend : bytes.length = place + 1 := h.length_eq
      rw [lineEndFrom_char hlow h, if_neg (by decide), if_pos rfl, lineEndFrom_of_le (by omega)]
      exact hend

end Scanners

/-- Scanning the bytes of a text gives the form and the extent that scanning its characters gives. -/
theorem byteExtent_eq {quote : Char} (hquote : quote = '\'' ∨ quote = '"') (behind : List Char) :
    byteExtent quote.toUInt8 (behind.flatMap String.utf8EncodeChar) =
      (((quoteForm quote).extent quote behind).1,
        ((behind.take ((quoteForm quote).extent quote behind).2).flatMap
          String.utf8EncodeChar).length) := by
  -- both quotes are low characters, of one byte each
  have hlow : quote.toNat < 128 := by
    rcases hquote with rfl | rfl <;> decide
  have hbackslash : quote ≠ '\\' := by
    rcases hquote with rfl | rfl <;> decide
  have hmark : [quote.toUInt8, quote.toUInt8] = [quote, quote].flatMap String.utf8EncodeChar := by
    simp [utf8EncodeChar_of_lt hlow]
  have hquotes : [quote.toUInt8, quote.toUInt8].isPrefixOf (behind.flatMap String.utf8EncodeChar) =
      true ↔ [quote, quote] <+: behind := by
    rw [List.isPrefixOf_iff_prefix, hmark, flatMap_utf8EncodeChar_prefix_iff]
  have hstart : ∀ bytes : List UInt8, Leaves bytes 0 bytes := fun bytes => ⟨Nat.zero_le _, rfl⟩
  -- two more quotes open a literal in three quotes
  by_cases hdoc : [quote, quote] <+: behind
  · rw [byteExtent, if_pos (hquotes.mpr hdoc)]
    obtain ⟨body, rfl⟩ := hdoc
    have hbody : (([quote, quote] ++ body).flatMap String.utf8EncodeChar).drop 2 =
        body.flatMap String.utf8EncodeChar := by
      rw [List.flatMap_append, ← hmark]
      rfl
    have htake : ([quote, quote] ++ body).take (docLength quote body + 2) =
        [quote, quote] ++ body.take (docLength quote body) := rfl
    rw [extent_of_doc, hbody]
    dsimp only
    rw [closingFrom_eq hlow hbackslash (hstart _), Nat.zero_add, htake, List.flatMap_append,
      ← hmark, List.length_append]
    rfl
  · have hform : (if quote.toUInt8 = '\''.toUInt8 then StringForm.single else .double) =
        quoteForm quote := by
      simp only [toUInt8_eq_iff hlow (show '\''.toNat < 128 by decide), quoteForm]
    rw [byteExtent, if_neg (mt hquotes.mp hdoc), extent_of_line hdoc, hform,
      lineEndFrom_eq hlow hbackslash (hstart _), Nat.zero_add]

end Python

open Python in
/-- A string literal is an opening, of up to two letters and a quote, and what its extent takes of
    the text behind it, and it has the form of this extent.  The scanner of bytes finds the same
    extent: it stops behind as many bytes as there are in what the literal takes. -/
theorem stringLiteral_extent {source : String} {f : Fragment} {rest : List Char}
    (hf : f.StartsAt (python.fragments source) rest) (hstring : f.category ∈ stringCategories) :
    ∃ letters quote behind form body, rest = letters ++ quote :: behind ∧ letters.length ≤ 2 ∧
      (∀ c ∈ letters, c ∈ stringLetters) ∧ (quote = '\'' ∨ quote = '"') ∧
      f.category = category (some (.string form)) ∧ f.text.toList = letters ++ quote :: body ∧
      (∀ other reach, Extent quote behind other reach ↔ other = form ∧ reach = body) ∧
      body <+: behind ∧
      byteExtent quote.toUInt8 (utf8Bytes (String.ofList behind)) =
        (form, (utf8Bytes (String.ofList body)).length) := by
  -- the fragment is a lexeme, and only string literals have such a category
  obtain ⟨before, after, hsplit, rfl⟩ := hf
  obtain ⟨front, l, -, rfl, back, hlexemes, hrest⟩ := exists_lexeme hsplit
  obtain ⟨form, hkind⟩ := exists_form_of_category hstring
  have hnext := Grammar.next_of_lexemes_eq hlexemes
  rw [← hrest] at hnext
  -- its text is an opening and the extent behind the quote
  obtain ⟨letters, quote, behind, hbehind, hlength, hletters, hquote, hform, htext⟩ :=
    opening_of_next hnext hkind rfl
  refine ⟨letters, quote, behind, _, _, hbehind, hlength, hletters, hquote, ?_, ?_,
    fun _ _ => extent_iff hquote, List.take_prefix _ _, ?_⟩
  · rw [fragmentOf, hform]
    rfl
  · rw [fragmentOf, String.toList_ofList, htext]
  · simp only [utf8Bytes_eq, String.toList_ofList]
    exact byteExtent_eq hquote behind

open Python in
/-- Backslashes hide a character of two bytes and a quote, so the literal ends with the quote
    behind them. -/
theorem stringLiteral_extent_of_escape :
    let f : Fragment := ⟨.ofKey "Literal.String.Single", "b'\\é\\''"⟩
    let rest := "b'\\é\\'' \"ü".toList
    f.StartsAt (python.fragments "x=b'\\é\\'' \"ü") rest ∧ f.category ∈ stringCategories ∧
    ∃ letters quote behind form body, rest = letters ++ quote :: behind ∧ letters.length ≤ 2 ∧
      (∀ c ∈ letters, c ∈ stringLetters) ∧ (quote = '\'' ∨ quote = '"') ∧
      f.category = category (some (.string form)) ∧ f.text.toList = letters ++ quote :: body ∧
      (∀ other reach, Extent quote behind other reach ↔ other = form ∧ reach = body) ∧
      body <+: behind ∧
      byteExtent quote.toUInt8 (utf8Bytes (String.ofList behind)) =
        (form, (utf8Bytes (String.ofList body)).length) := by
  intro f rest
  have hsplit : python.fragments "x=b'\\é\\'' \"ü" =
      [⟨.ofKey "Name", "x"⟩, ⟨.ofKey "Operator", "="⟩] ++ f ::
        [⟨.ofKey "Text.Whitespace", " "⟩, ⟨.ofKey "Literal.String.Double", "\"ü"⟩] := by
    decide +kernel
  have hstarts : f.StartsAt (python.fragments "x=b'\\é\\'' \"ü") rest :=
    ⟨_, _, hsplit, by decide⟩
  have hstring : f.category ∈ stringCategories := by decide +kernel
  exact ⟨hstarts, hstring, stringLiteral_extent hstarts hstring⟩

end Tinct.Lexer
