import Mathlib.Data.List.TakeWhile
import Tinct.Proofs.JsonGrammar

/-!
# What the reader takes is a document

The state of the reader says what is still to come: the row of symbols that the grammar has to
derive from the rest of the text.  Each token that the reader takes is a piece of a derivation for
the symbols of the state before it, if the symbols of the state behind it derive the rest.  So a
text that is read to its end is derived from the symbol of a value.

## Key results

- `exists_content_of_stringBody?`, `matches_number_of_ofChars?`: the scalars that the reader takes
  are spelled as the grammar says
- `Reading.derivesAll_of_step`: one token as a piece of a derivation
- `Reading.exists_derivesAll_of_readChars?`: all of a text as a derivation
- `exists_isDocument_of_parse?`: every text that can be read is a document of the grammar
-/

namespace Tinct.Json

/-! ## Strings -/

open Pattern

/-- A number of a 16-bit unit is read from four hexadecimal digits. -/
private theorem isSome_of_unit? {a b c d : Char} {n : Nat} (h : unit? a b c d = some n) :
    (hexDigit? a).isSome ∧ (hexDigit? b).isSome ∧ (hexDigit? c).isSome ∧ (hexDigit? d).isSome := by
  simp only [unit?, Option.bind_eq_bind, Option.bind_eq_some_iff] at h
  obtain ⟨_, ha, _, hb, _, hc, _, hd, -⟩ := h
  simp [ha, hb, hc, hd]

/-- A character with an escape of its own is one of eight. -/
private theorem mem_of_simpleEscape? {e c : Char} (h : simpleEscape? e = some c) :
    e ∈ "\"\\/bfnrt".toList := by
  unfold simpleEscape? at h
  split at h <;> first | decide | cases h

/-- What is read as a string is spelled correctly up to the closing quote. -/
theorem exists_content_of_stringBody? {text : List Char} {t : Text} {behind : List Char}
    (h : stringBody? text = some (t, behind)) :
    ∃ body, text = body ++ '"' :: behind ∧ Spelling.content.Matches body := by
  fun_induction stringBody? text generalizing t behind with
  | case1 => cases h
  | case2 rest =>
    obtain ⟨-, rfl⟩ := Prod.mk.inj (Option.some.inj h)
    exact ⟨[], rfl, .done⟩
  -- an escape with four digits
  | case3 a b c d rest n t' behind' hb hunit ih =>
    obtain ⟨-, rfl⟩ := Prod.mk.inj (Option.some.inj h)
    obtain ⟨body, rfl, hbody⟩ := ih hb
    obtain ⟨ha, hb, hc, hd⟩ := isSome_of_unit? hunit
    refine ⟨'\\' :: 'u' :: a :: b :: c :: d :: body, rfl, ?_⟩
    refine .more (s := ['\\', 'u', a, b, c, d]) (.right ?_) hbody
    refine .seq (s := ['\\']) (matches_text_iff.mpr rfl) (.right ?_)
    refine .seq (s := ['u']) (matches_text_iff.mpr rfl) ?_
    exact .seq (.one ha) (.seq (.one hb) (.seq (.one hc) (.seq (.one hd) .nothing)))
  | case4 => cases h
  -- an escape with a letter or a mark
  | case5 e rest _ c t' behind' hb hsimple ih =>
    obtain ⟨-, rfl⟩ := Prod.mk.inj (Option.some.inj h)
    obtain ⟨body, rfl, hbody⟩ := ih hb
    refine ⟨'\\' :: e :: body, rfl, .more (s := ['\\', e]) (.right ?_) hbody⟩
    refine .seq (s := ['\\']) (matches_text_iff.mpr rfl) (.left (.one ?_))
    exact List.contains_iff_mem.mpr (mem_of_simpleEscape? hsimple)
  | case6 => cases h
  | case7 => cases h
  -- a character that stands for itself
  | case8 c rest hquote _ _ hplain ih =>
    obtain ⟨⟨t', behind'⟩, hb, heq⟩ := Option.map_eq_some_iff.mp h
    obtain ⟨-, rfl⟩ := Prod.mk.inj heq
    obtain ⟨body, rfl, hbody⟩ := ih hb
    refine ⟨c :: body, rfl, .more (s := [c]) (.left (.one ?_)) hbody⟩
    simp only [Bool.or_eq_true, decide_eq_true_eq, not_or, Nat.not_lt] at hplain
    simp only [Bool.and_eq_true, decide_eq_true_eq]
    exact ⟨⟨hplain.1, hquote⟩, hplain.2⟩

/-! ## Numbers -/

/-- What is read of a number first is its sign, if it has one. -/
private theorem exists_minusSign (cs : List Char) :
    ∃ sign, cs = sign ++ (minusSign cs).2 ∧ (optional (text "-")).Matches sign := by
  unfold minusSign
  split
  · exact ⟨['-'], rfl, .left (matches_text_iff.mpr rfl)⟩
  · exact ⟨[], rfl, .right .nothing⟩

/-- What is read of an exponent first is its sign, if it has one. -/
private theorem exists_eitherSign (cs : List Char) :
    ∃ sign, cs = sign ++ (eitherSign cs).2 ∧ (optional (anyOf "+-")).Matches sign := by
  unfold eitherSign
  split
  · exact ⟨['+'], rfl, .left (.one (by decide))⟩
  · unfold minusSign
    split
    · exact ⟨['-'], rfl, .left (.one (by decide))⟩
    · exact ⟨[], rfl, .right .nothing⟩

/-- Digits are spelled as such. -/
private theorem matches_many1_digit {digits : List Char} (hne : digits ≠ [])
    (h : ∀ c ∈ digits, c.isDigit = true) : (many1 Spelling.digit).Matches digits := by
  obtain ⟨c, tail, rfl⟩ := List.exists_cons_of_ne_nil hne
  rw [List.forall_mem_cons] at h
  exact .seq (s := [c]) (.one h.1) (matches_many_one_iff.mpr h.2)

/-- A digit other than zero is one of nine. -/
private theorem mem_of_isDigit {c : Char} (hc : c.isDigit = true) (hzero : c ≠ '0') :
    c ∈ "123456789".toList := by
  have hbounds : 48 ≤ c.toNat ∧ c.toNat ≤ 57 := by
    simpa [Char.isDigit, UInt32.le_iff_toNat_le] using hc
  have hdigits : ∀ k < 10,
      Char.ofNat (48 + k) = '0' ∨ Char.ofNat (48 + k) ∈ "123456789".toList := by
    decide
  have hc : Char.ofNat (48 + (c.toNat - 48)) = c := by
    rw [Nat.add_sub_cancel' hbounds.1, Char.ofNat_toNat]
  have hdigit := hdigits (c.toNat - 48) (by omega)
  rw [hc] at hdigit
  exact hdigit.resolve_left hzero

/-- The digits that are accepted before the point are spelled as such. -/
private theorem matches_whole_of_isWholePart {digits : List Char}
    (hwhole : isWholePart digits = true) (h : ∀ c ∈ digits, c.isDigit = true) :
    Spelling.whole.Matches digits := by
  cases digits with
  | nil => cases hwhole
  | cons c tail =>
    rw [List.forall_mem_cons] at h
    by_cases hzero : c = '0'
    · -- a zero in front stands alone
      have htail : tail = [] := by simpa [isWholePart, hzero] using hwhole
      rw [hzero, htail]
      exact .left (matches_text_iff.mpr rfl)
    · refine .right (.seq (s := [c]) (.one ?_) (matches_many_one_iff.mpr h.2))
      exact List.contains_iff_mem.mpr (mem_of_isDigit h.1 hzero)

private theorem isDigit_of_mem_takeWhile {cs : List Char} :
    ∀ c ∈ cs.takeWhile Char.isDigit, c.isDigit = true :=
  fun _ hc => List.mem_takeWhile_imp hc

/-- What is read behind the whole part is a fraction, or nothing. -/
private theorem exists_of_fraction? {cs places rest : List Char}
    (h : fraction? cs = some (places, rest)) :
    ∃ fraction, cs = fraction ++ rest ∧ (optional Spelling.fraction).Matches fraction := by
  unfold fraction? at h
  split at h
  · rename_i behind
    -- behind a point there is at least one digit
    dsimp only at h
    split at h
    · cases h
    · rename_i hempty
      obtain ⟨rfl, rfl⟩ := Prod.mk.inj (Option.some.inj h)
      refine ⟨'.' :: behind.takeWhile Char.isDigit, ?_, .left ?_⟩
      · rw [List.cons_append, List.takeWhile_append_dropWhile]
      · refine .seq (s := ['.']) (matches_text_iff.mpr rfl) ?_
        exact matches_many1_digit (by simpa using hempty) isDigit_of_mem_takeWhile
  · obtain ⟨rfl, rfl⟩ := Prod.mk.inj (Option.some.inj h)
    exact ⟨[], rfl, .right .nothing⟩

/-- What is read at the end of a number is an exponent, or nothing. -/
private theorem matches_of_exponent? {cs : List Char} {e : Option Int} (h : exponent? cs = some e) :
    (optional Spelling.exponent).Matches cs := by
  unfold exponent? at h
  split at h
  · exact .right .nothing
  · rename_i c rest
    split at h
    · -- behind the letter there are a sign, maybe, and digits up to the end
      rename_i hletter
      obtain ⟨sign, hsplit, hsign⟩ := exists_eitherSign rest
      dsimp only at h
      split at h
      · cases h
      · rename_i hdigits
        simp only [Bool.or_eq_true, List.isEmpty_iff, Bool.not_eq_true', Bool.not_eq_false,
          not_or, List.all_eq_true] at hdigits
        rw [hsplit, ← List.append_nil (eitherSign rest).2]
        refine .left (.seq (s := [c]) (.one ?_)
          (.seq hsign (.seq (matches_many1_digit hdigits.1 hdigits.2) .nothing)))
        simpa using hletter
    · cases h

/-- What is read as a number is spelled correctly. -/
theorem matches_number_of_ofChars? {digits : List Char} {n : Number}
    (h : Number.ofChars? digits = some n) : Spelling.number.Matches digits := by
  obtain ⟨sign, hsplit, hsign⟩ := exists_minusSign digits
  unfold Number.ofChars? at h
  dsimp only at h
  split at h
  · rename_i hwhole
    simp only [Option.bind_eq_bind, Option.bind_eq_some_iff] at h
    obtain ⟨⟨places, rest⟩, hfraction, e, hexponent, -⟩ := h
    obtain ⟨fraction, hbehind, hfraction⟩ := exists_of_fraction? hfraction
    -- the text in the order of the pattern: whole part, fraction, exponent
    have hunsigned : (minusSign digits).2 =
        (minusSign digits).2.takeWhile Char.isDigit ++ (fraction ++ (rest ++ [])) := by
      rw [List.append_nil, ← hbehind, List.takeWhile_append_dropWhile]
    rw [hsplit, hunsigned]
    refine .seq hsign (.seq ?_ (.seq hfraction (.seq (matches_of_exponent? hexponent) .nothing)))
    exact matches_whole_of_isWholePart hwhole isDigit_of_mem_takeWhile
  · cases h

/-! ## Tokens -/

namespace Token

/-- The piece that a token is where a value or a mark may stand. -/
def piece (text : List Char) : Token → Piece
  | openBracket => .mark '['
  | closeBracket => .mark ']'
  | openBrace => .mark '\x7b'
  | closeBrace => .mark '\x7d'
  | colon => .mark ':'
  | comma => .mark ','
  | null => .constant text
  | bool _ => .constant text
  | number _ => .number text
  | string _ => .string text

/-- Whether a text is a correct spelling of a token. -/
structure IsWritten (t : Token) (text : List Char) : Prop where
  isSpelled : (t.piece text).IsSpelled
  text_eq : (t.piece text).text = text

/-- The token of a mark is written as this mark. -/
theorem isWritten_of_ofMark? {c : Char} {t : Token} (h : ofMark? c = some t) :
    t.IsWritten [c] := by
  have hpiece : t.piece [c] = .mark c := by
    unfold ofMark? at h
    split at h <;> cases h <;> rfl
  constructor
  · rw [hpiece]
    exact mem_marks_of_ofMark? h
  · rw [hpiece]
    rfl

/-- The token of a word is written as this word. -/
theorem isWritten_of_ofWord? {word : List Char} {t : Token} (h : ofWord? word = some t) :
    t.IsWritten word := by
  have hpiece : word ∈ Spelling.constants ∧ t.piece word = .constant word := by
    unfold ofWord? at h
    split at h
    · cases h
      exact ⟨by simp [*, Spelling.constants], rfl⟩
    split at h
    · cases h
      exact ⟨by simp [*, Spelling.constants], rfl⟩
    split at h
    · cases h
      exact ⟨by simp [*, Spelling.constants], rfl⟩
    · cases h
  constructor
  · rw [hpiece.2]
    exact hpiece.1
  · rw [hpiece.2]
    rfl

/-- The first token of a text is written at its start, and the others are those of the rest. -/
theorem exists_isWritten_of_ofChars? {c : Char} {rest : List Char} {tokens : List Token}
    (h : ofChars? (c :: rest) = some tokens) (hc : isSpace c = false) :
    ∃ t w behind others, c :: rest = w ++ behind ∧ w ≠ [] ∧ t.IsWritten w ∧
      ofChars? behind = some others ∧ tokens = t :: others := by
  rw [ofChars?, hc, if_neg Bool.false_ne_true] at h
  split at h
  · -- a mark is a token by itself
    rename_i t hmark
    obtain ⟨others, hothers, rfl⟩ := Option.map_eq_some_iff.mp h
    exact ⟨t, [c], rest, others, rfl, by simp, isWritten_of_ofMark? hmark, hothers, rfl⟩
  split at h
  · rename_i hquote
    split at h
    · rename_i t behind hread
      obtain ⟨others, hothers, rfl⟩ := Option.map_eq_some_iff.mp h
      -- a string reaches up to its second quote
      obtain ⟨body, rfl, hbody⟩ := exists_content_of_stringBody? hread
      have hstring : Spelling.string.Matches ('"' :: (body ++ ['"'])) :=
        Spelling.matches_quotes_iff.mpr ⟨body, rfl, hbody⟩
      exact ⟨.string t, _, behind, others, by simp [hquote], by simp, ⟨hstring, rfl⟩, hothers, rfl⟩
    · cases h
  split at h
  -- numbers and words reach as far as their characters do
  · split at h
    · rename_i n hread
      obtain ⟨others, hothers, rfl⟩ := Option.map_eq_some_iff.mp h
      refine ⟨.number n, _, _, others, ?_, by simp,
        ⟨matches_number_of_ofChars? hread, rfl⟩, hothers, rfl⟩
      rw [List.cons_append, List.takeWhile_append_dropWhile]
    · cases h
  · split at h
    · rename_i t hread
      obtain ⟨others, hothers, rfl⟩ := Option.map_eq_some_iff.mp h
      refine ⟨t, _, _, others, ?_, by simp, isWritten_of_ofWord? hread, hothers, rfl⟩
      rw [List.cons_append, List.takeWhile_append_dropWhile]
    · cases h

end Token

/-! ## Rows of symbols -/

/-- The rows of pieces that a row of symbols derives, with blanks between the symbols. -/
inductive DerivesAll : List Symbol → List Piece → Prop where
  | nil {blanks : List Piece} (hblanks : Blanks blanks) : DerivesAll [] blanks
  | cons {s : Symbol} {symbols : List Symbol} {before ps behind : List Piece}
    (hbefore : Blanks before) (hsymbol : Derives s ps) (hbehind : DerivesAll symbols behind) :
    DerivesAll (s :: symbols) (before ++ ps ++ behind)

theorem blanks_nil : Blanks [] :=
  fun _ hp => absurd hp List.not_mem_nil

theorem blanks_append {front back : List Piece} (hfront : Blanks front) (hback : Blanks back) :
    Blanks (front ++ back) :=
  fun p hp => (List.mem_append.mp hp).elim (hfront p) (hback p)

/-- Blanks in front of a mark belong to it. -/
theorem Marks.blanks_append {c : Char} {before marks : List Piece} (hbefore : Blanks before)
    (h : Marks c marks) : Marks c (before ++ marks) := by
  obtain ⟨hfront, hafter⟩ := h
  rw [← List.append_assoc]
  exact .intro (Json.blanks_append hbefore hfront) hafter

theorem Marks.cons {c : Char} {after : List Piece} (hafter : Blanks after) :
    Marks c (.mark c :: after) :=
  .intro blanks_nil hafter

/-- The grammar has room for blanks before a comma and before a closing bracket. -/
theorem Derives.blanks_append_others {b : Bracket} {before ps : List Piece}
    (hbefore : Blanks before) (h : Derives (.others b) ps) : Derives (.others b) (before ++ ps) := by
  cases h with
  | last hclose => exact .last (hclose.blanks_append hbefore)
  | next hcomma helement hothers =>
    rw [← List.append_assoc, ← List.append_assoc]
    exact .next (hcomma.blanks_append hbefore) helement hothers

/-- Blanks in front of a colon belong to it. -/
theorem Derives.blanks_append_named {before ps : List Piece} (hbefore : Blanks before)
    (h : Derives .named ps) : Derives .named (before ++ ps) := by
  cases h with
  | named hcolon hvalue =>
    rw [← List.append_assoc]
    exact .named (hcolon.blanks_append hbefore) hvalue

namespace DerivesAll

variable {symbols : List Symbol} {ps : List Piece}

/-- A blank can stand in front of every row that is derived. -/
theorem blank {c : Char} (hc : isSpace c = true) (h : DerivesAll symbols ps) :
    DerivesAll symbols (.blank [c] :: ps) := by
  have hblank : Blanks [.blank [c]] := fun p hp => ⟨c, hc, List.mem_singleton.mp hp⟩
  cases h with
  | nil hblanks => exact .nil (blanks_append hblank hblanks)
  | cons hbefore hsymbol hbehind =>
    exact .cons (blanks_append hblank hbefore) hsymbol hbehind

/-- A piece that is a value. -/
theorem value {p : Piece} (hp : Derives .value [p]) (h : DerivesAll symbols ps) :
    DerivesAll (.value :: symbols) (p :: ps) :=
  .cons blanks_nil hp h

/-- An opening bracket starts a value, of which the inside is left to derive. -/
theorem opened {b : Bracket} (h : DerivesAll (.inside b :: symbols) ps) :
    DerivesAll (.value :: symbols) (.mark b.opening :: ps) := by
  cases h with
  | cons hbefore hinner hbehind =>
    exact .cons blanks_nil (.bracket (.cons hbefore) hinner) hbehind

/-- A closing bracket ends an empty array or object. -/
theorem closed_inside {b : Bracket} (h : DerivesAll symbols ps) :
    DerivesAll (.inside b :: symbols) (.mark b.closing :: ps) :=
  .cons blanks_nil (.empty (.cons blanks_nil)) h

/-- A closing bracket ends the elements. -/
theorem closed_others {b : Bracket} (h : DerivesAll symbols ps) :
    DerivesAll (.others b :: symbols) (.mark b.closing :: ps) :=
  .cons blanks_nil (.last (.cons blanks_nil)) h

/-- A comma is followed by another element. -/
theorem comma {b : Bracket} (h : DerivesAll (b.element :: .others b :: symbols) ps) :
    DerivesAll (.others b :: symbols) (.mark ',' :: ps) := by
  cases h with
  | cons hbefore helement hothers =>
    cases hothers with
    | cons hbetween hothers hbehind =>
      -- the blanks between the element and the rest of the row belong to the rest
      have hrow := Derives.next (.cons hbefore) helement (hothers.blanks_append_others hbetween)
      simpa using cons blanks_nil hrow hbehind

/-- The first element stands in front of the others. -/
theorem first {b : Bracket} (h : DerivesAll (b.element :: .others b :: symbols) ps) :
    DerivesAll (.inside b :: symbols) ps := by
  cases h with
  | cons hbefore helement hothers =>
    cases hothers with
    | cons hbetween hothers hbehind =>
      have hrow := Derives.first helement (hothers.blanks_append_others hbetween)
      simpa using cons hbefore hrow hbehind

/-- A colon is followed by the value of a member. -/
theorem colon (h : DerivesAll (.value :: symbols) ps) :
    DerivesAll (.named :: symbols) (.mark ':' :: ps) := by
  cases h with
  | cons hbefore hvalue hbehind =>
    exact .cons blanks_nil (.named (.cons hbefore) hvalue) hbehind

/-- The name of a member is followed by what it names. -/
theorem name {quoted : List Char} (hquoted : Spelling.string.Matches quoted)
    (h : DerivesAll (.named :: symbols) ps) :
    DerivesAll (.member :: symbols) (.name quoted :: ps) := by
  cases h with
  | cons hbefore hnamed hbehind =>
    exact .cons blanks_nil (.member hquoted (hnamed.blanks_append_named hbefore)) hbehind

end DerivesAll

/-! ## States of the reader -/

/-- What closes an array or an object that is open. -/
def Frame.pending : Frame → Symbol
  | array _ => .others .array
  | member _ _ => .others .object

namespace Reading

/-- The symbols that are still to come. -/
def pending : Reading → List Symbol
  | value frames => .value :: frames.map Frame.pending
  | firstItem frames => .inside .array :: frames.map Frame.pending
  | firstName frames => .inside .object :: frames.map Frame.pending
  | name _ frames => .member :: .others .object :: frames.map Frame.pending
  | colon _ _ frames => .named :: .others .object :: frames.map Frame.pending
  | complete _ frames => frames.map Frame.pending

/-- A token that starts a value stands for a piece in front of what is then left to derive. -/
theorem derivesAll_of_startValue {frames : List Frame} {t : Token} {r : Reading}
    (hstart : startValue frames t = some r) {w : List Char} (hw : t.IsWritten w) {ps : List Piece}
    (h : DerivesAll r.pending ps) :
    DerivesAll (.value :: frames.map Frame.pending) (t.piece w :: ps) := by
  cases t with
  | null => cases hstart; exact .value (.constant hw.isSpelled) h
  | bool b => cases hstart; exact .value (.constant hw.isSpelled) h
  | number n => cases hstart; exact .value (.number hw.isSpelled) h
  | string t => cases hstart; exact .value (.string hw.isSpelled) h
  -- a bracket opens a frame, whose rows come first
  | openBracket => cases hstart; exact h.opened
  | openBrace => cases hstart; exact h.opened
  | closeBracket => cases hstart
  | closeBrace => cases hstart
  | colon => cases hstart
  | comma => cases hstart

/-- What the state behind a token leaves to come, with the token before it, is what the state before
    the token leaves to come. -/
theorem derivesAll_of_step {r r' : Reading} {t : Token} (hstep : r.step t = some r')
    {w : List Char} (hw : t.IsWritten w) {ps : List Piece} (h : DerivesAll r'.pending ps) :
    ∃ p : Piece, p.text = w ∧ DerivesAll r.pending (p :: ps) := by
  unfold step at hstep
  split at hstep
  · exact ⟨t.piece w, hw.text_eq, derivesAll_of_startValue hstep hw h⟩
  · cases hstep
    exact ⟨.mark ']', hw.text_eq, .closed_inside h⟩
  · -- the first item is a value in front of the other items
    exact ⟨t.piece w, hw.text_eq, .first (derivesAll_of_startValue hstep hw h)⟩
  · cases hstep
    exact ⟨.mark '\x7d', hw.text_eq, .closed_inside h⟩
  · cases hstep
    exact ⟨.name w, rfl, .first (.name hw.isSpelled h)⟩
  · cases hstep
  · cases hstep
    exact ⟨.name w, rfl, .name hw.isSpelled h⟩
  · cases hstep
  · cases hstep
    exact ⟨.mark ':', hw.text_eq, .colon h⟩
  · cases hstep
  · cases hstep
    exact ⟨.mark ',', hw.text_eq, .comma h⟩
  · cases hstep
    exact ⟨.mark ']', hw.text_eq, .closed_others h⟩
  · cases hstep
    exact ⟨.mark ',', hw.text_eq, .comma h⟩
  · cases hstep
    exact ⟨.mark '\x7d', hw.text_eq, .closed_others h⟩
  · cases hstep

/-- A text that leads to the end of a document is derived from what was still to come. -/
theorem exists_derivesAll_of_readChars? {r r' : Reading} {cs : List Char} {v : Json}
    (hread : r.readChars? cs = some r') (hend : r'.document? = some v) :
    ∃ ps, Piece.texts ps = cs ∧ DerivesAll r.pending ps := by
  -- the induction is on the length of the text, which every token and every blank shortens
  induction hlen : cs.length using Nat.strongRecOn generalizing r cs with
  | ind n ih =>
    cases cs with
    | nil =>
      rw [readChars?_nil] at hread
      cases hread
      -- at the end of the text a whole value has been read, and nothing is left to derive
      unfold document? at hend
      split at hend
      · exact ⟨[], rfl, .nil blanks_nil⟩
      · cases hend
    | cons c rest =>
      cases hc : isSpace c with
      | true =>
        -- a blank is left out when the text is read, and put in front of the pieces again
        rw [readChars?_space hc] at hread
        obtain ⟨ps, htexts, hps⟩ := ih rest.length (by simp [← hlen]) hread rfl
        exact ⟨.blank [c] :: ps, by rw [← htexts]; rfl, hps.blank hc⟩
      | false =>
        cases htokens : Token.ofChars? (c :: rest) with
        | none => simp [readChars?, htokens] at hread
        | some tokens =>
          obtain ⟨t, w, behind, others, hsplit, hne, hw, hothers, rfl⟩ :=
            Token.exists_isWritten_of_ofChars? htokens hc
          -- the first token is read, and one step of the reading is taken with it
          have hfirst : Token.ofChars? (c :: rest) = (Token.ofChars? behind).map (t :: ·) := by
            rw [htokens, hothers, Option.map_some]
          rw [readChars?_of_ofChars? hfirst] at hread
          obtain ⟨r₁, hstep, hread⟩ := Option.bind_eq_some_iff.mp hread
          have hshorter : behind.length < n := by
            rw [← hlen, hsplit, List.length_append]
            exact Nat.lt_add_of_pos_left (List.length_pos_iff.mpr hne)
          obtain ⟨ps, htexts, hps⟩ := ih _ hshorter hread rfl
          obtain ⟨p, hp, hderives⟩ := derivesAll_of_step hstep hw hps
          exact ⟨p :: ps, by rw [hsplit, ← hp, ← htexts]; rfl, hderives⟩

end Reading

/-- Every text that can be read is a document of the grammar. -/
theorem exists_isDocument_of_parse? {source : String} {v : Json} (h : parse? source = some v) :
    ∃ ps, IsDocument ps ∧ String.ofList (Piece.texts ps) = source := by
  rw [parse?_eq] at h
  obtain ⟨r, hread, hend⟩ := Option.bind_eq_some_iff.mp h
  obtain ⟨ps, htexts, hps⟩ := Reading.exists_derivesAll_of_readChars? hread hend
  refine ⟨ps, ?_, by rw [htexts, String.ofList_toList]⟩
  cases hps with
  | cons hbefore hvalue hbehind =>
    cases hbehind with
    | nil hafter => exact .intro hbefore hvalue hafter

end Tinct.Json
