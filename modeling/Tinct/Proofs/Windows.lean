import Tinct.Lexer.Python

/-!
# Windows of texts

The window of a text is taken character by character from the front.  It can also be found in the
bytes of the text, from behind: one starts at the place that the size allows and goes back until
there is a boundary, a place with whole characters on both sides.  There is one at the latest at the
start of the text, and as no character has more than four bytes, at most three places are passed.

## Key results

- `prefix_window_iff`: the beginnings of a window are those of the text that fit into its size
- `le_utf8ByteSize_window`: how much of its size a window leaves
- `IsLastBoundary.back`, `boundaryUpTo?_eq`: going back keeps the last boundary, and ends there
- `byteWindow?_eq`: going back in the bytes finds the window
- `window_longest`: the window is the longest beginning within its size, found either way
-/

namespace Tinct

/-! ## Windows of characters -/

theorem utf8ByteSize_ofList_cons (c : Char) (rest : List Char) :
    (String.ofList (c :: rest)).utf8ByteSize = c.utf8Size + (String.ofList rest).utf8ByteSize := by
  rw [← List.singleton_append, String.ofList_append, String.utf8ByteSize_append,
    ← String.singleton_eq_ofList, String.utf8ByteSize_singleton]

/-- A window is a beginning of the text. -/
theorem window_isPrefix (size : Nat) (text : List Char) : window size text <+: text := by
  induction text generalizing size with
  | nil => exact List.prefix_refl _
  | cons c rest ih =>
    rw [window]
    split
    · exact List.cons_prefix_cons.mpr ⟨rfl, ih _⟩
    · exact List.nil_prefix

/-- The beginnings of a window are the beginnings of the text that fit into its size. -/
theorem prefix_window_iff {size : Nat} {text front : List Char} :
    front <+: window size text ↔ front <+: text ∧ (String.ofList front).utf8ByteSize ≤ size := by
  induction text generalizing size front with
  | nil =>
    rw [window, List.prefix_nil]
    constructor
    · rintro rfl
      exact ⟨rfl, Nat.zero_le _⟩
    · exact And.left
  | cons c rest ih =>
    cases front with
    | nil => exact ⟨fun _ => ⟨List.nil_prefix, Nat.zero_le _⟩, fun _ => List.nil_prefix⟩
    | cons d front =>
      rw [utf8ByteSize_ofList_cons, List.cons_prefix_cons, window]
      split
      · -- the first character fits, and leaves less room for the others
        rename_i hfits
        rw [List.cons_prefix_cons, ih, and_assoc]
        refine and_congr_right fun hd => and_congr_right fun _ => ?_
        subst hd
        omega
      · -- it does not fit, so neither does any beginning with it
        rename_i hlong
        constructor
        · intro h
          exact absurd (List.prefix_nil.mp h) (List.cons_ne_nil d front)
        · rintro ⟨⟨rfl, -⟩, hfits⟩
          omega

theorem utf8ByteSize_window_le (size : Nat) (text : List Char) :
    (String.ofList (window size text)).utf8ByteSize ≤ size :=
  (prefix_window_iff.mp (List.prefix_refl _)).2

/-- A text that fits into the size is its own window. -/
theorem window_eq_self {size : Nat} {text : List Char}
    (h : (String.ofList text).utf8ByteSize ≤ size) : window size text = text := by
  have hall : text <+: window size text := prefix_window_iff.mpr ⟨List.prefix_refl _, h⟩
  exact (window_isPrefix size text).eq_of_length_le hall.length_le

/-- The character behind a window does not fit into the rest of its size, so this is less than four
    bytes. -/
theorem le_utf8ByteSize_window {size : Nat} {text : List Char}
    (h : size < (String.ofList text).utf8ByteSize) :
    size ≤ (String.ofList (window size text)).utf8ByteSize + 3 := by
  induction text generalizing size with
  | nil => exact absurd h (Nat.not_lt_zero size)
  | cons c rest ih =>
    rw [utf8ByteSize_ofList_cons] at h
    have hfour := c.utf8Size_le_four
    rw [window]
    split
    · rw [utf8ByteSize_ofList_cons]
      -- behind a character that fits, the rest is still too long
      have hrest : size - c.utf8Size < (String.ofList rest).utf8ByteSize := by omega
      have hleft := ih hrest
      omega
    · omega

/-! ## Windows of bytes -/

/-- The last boundary up to a place in the bytes of a text, looked for from there backwards; the
    byte at a place tells whether it is one.  There are no places below the start of the text. -/
def boundaryUpTo? (text : String) : Nat → Option Nat
  | 0 => if String.Pos.Raw.isValid text ⟨0⟩ then some 0 else none
  | place + 1 =>
    if String.Pos.Raw.isValid text ⟨place + 1⟩ then some (place + 1) else boundaryUpTo? text place

/-- The beginning of a text that ends at a place in its bytes, if this is a boundary. -/
def beginning? (text : String) (place : Nat) : Option String :=
  if h : String.Pos.Raw.IsValid text ⟨place⟩ then some (text.sliceTo (text.pos ⟨place⟩ h)).copy
  else none

/-- The window of a text: all of it if it fits, and otherwise what is before the last boundary up to
    the size. -/
def byteWindow? (size : Nat) (text : String) : Option String :=
  if text.utf8ByteSize ≤ size then some text
  else (boundaryUpTo? text size).bind (beginning? text)

/-- The last boundary of a text up to a place in its bytes. -/
structure IsLastBoundary (text : String) (place last : Nat) : Prop where
  le : last ≤ place
  isValid : String.Pos.Raw.IsValid text ⟨last⟩
  le_last : ∀ p ≤ place, String.Pos.Raw.IsValid text ⟨p⟩ → p ≤ last

section Back

variable {text : String} {place last : Nat}

/-- A boundary is the last one up to itself. -/
theorem IsLastBoundary.eq (h : IsLastBoundary text place last)
    (hhere : String.Pos.Raw.IsValid text ⟨place⟩) : last = place :=
  Nat.le_antisymm h.le (h.le_last place (Nat.le_refl place) hhere)

/-- Going back by one place that is no boundary keeps the last boundary. -/
theorem IsLastBoundary.back (h : IsLastBoundary text (place + 1) last)
    (hhere : ¬ String.Pos.Raw.IsValid text ⟨place + 1⟩) : IsLastBoundary text place last where
  le := by
    have hle := h.le
    have hne : last ≠ place + 1 := by
      rintro rfl
      exact hhere h.isValid
    omega
  isValid := h.isValid
  le_last := fun p hp => h.le_last p (Nat.le_succ_of_le hp)

/-- Going back ends at the last boundary, so it does not come below the start of the text. -/
theorem boundaryUpTo?_eq (h : IsLastBoundary text place last) :
    boundaryUpTo? text place = some last := by
  induction place with
  | zero =>
    obtain rfl := Nat.le_zero.mp h.le
    rw [boundaryUpTo?, if_pos (String.Pos.Raw.isValid_eq_true_iff.mpr h.isValid)]
  | succ place ih =>
    rw [boundaryUpTo?]
    split
    · rename_i hhere
      rw [h.eq (String.Pos.Raw.isValid_eq_true_iff.mp hhere)]
    · rename_i hhere
      exact ih (h.back (mt String.Pos.Raw.isValid_eq_true_iff.mpr hhere))

/-- A place between characters is where a beginning of the text ends. -/
theorem isValid_iff_exists_beginning :
    String.Pos.Raw.IsValid text ⟨place⟩ ↔
      ∃ front, front <+: text.toList ∧ place = (String.ofList front).utf8ByteSize := by
  rw [String.Pos.Raw.isValid_iff_exists_take_toList]
  constructor
  · rintro ⟨n, hn⟩
    exact ⟨_, List.take_prefix n _, hn⟩
  · rintro ⟨front, hfront, hplace⟩
    exact ⟨front.length, by rw [← List.prefix_iff_eq_take.mp hfront, ← hplace]⟩

/-- At such a place the text can be cut. -/
theorem beginning?_of_eq_append {front rest : String} (h : text = front ++ rest) :
    beginning? text front.utf8ByteSize = some front := by
  have hvalid : String.Pos.Raw.IsValid text ⟨front.utf8ByteSize⟩ :=
    h ▸ String.Pos.Raw.isValid_rawEndPos.append_right rest
  have hsplits : (text.pos ⟨front.utf8ByteSize⟩ hvalid).Splits front rest := ⟨h, rfl⟩
  rw [beginning?, dif_pos hvalid, hsplits.copy_sliceTo_eq]

end Back

/-- The window of a text ends at the last boundary up to its size. -/
theorem isLastBoundary_window (size : Nat) (text : String) :
    IsLastBoundary text size (String.ofList (window size text.toList)).utf8ByteSize where
  le := utf8ByteSize_window_le size text.toList
  isValid := isValid_iff_exists_beginning.mpr ⟨_, window_isPrefix size text.toList, rfl⟩
  le_last := by
    -- what is before a boundary that fits is a beginning of the window
    intro p hp hvalid
    obtain ⟨front, hfront, rfl⟩ := isValid_iff_exists_beginning.mp hvalid
    obtain ⟨back, hback⟩ := prefix_window_iff.mpr ⟨hfront, hp⟩
    rw [← hback, String.ofList_append, String.utf8ByteSize_append]
    exact Nat.le_add_right _ _

/-- Going back in the bytes of a text finds its window. -/
theorem byteWindow?_eq (size : Nat) (text : String) :
    byteWindow? size text = some (String.ofList (window size text.toList)) := by
  rw [byteWindow?]
  split
  · rename_i hfits
    rw [window_eq_self (by rwa [String.ofList_toList]), String.ofList_toList]
  · obtain ⟨rest, hrest⟩ := window_isPrefix size text.toList
    have hsplit : text = String.ofList (window size text.toList) ++ String.ofList rest := by
      rw [← String.ofList_append, hrest, String.ofList_toList]
    rw [boundaryUpTo?_eq (isLastBoundary_window size text), Option.bind_some,
      beginning?_of_eq_append hsplit]

/-! ## The longest beginning -/

/-- The longest of the beginnings of a text that fit into a size. -/
structure IsWindow (size : Nat) (text start : String) : Prop where
  isBeginning : ∃ rest, text = start ++ rest
  fits : start.utf8ByteSize ≤ size
  longest : ∀ front rest, text = front ++ rest → front.utf8ByteSize ≤ size →
    ∃ middle, start = front ++ middle

/-- A beginning of the characters is a beginning of the text. -/
theorem toList_prefix_iff {front text : String} :
    front.toList <+: text.toList ↔ ∃ rest, text = front ++ rest := by
  constructor
  · rintro ⟨rest, hrest⟩
    refine ⟨String.ofList rest, ?_⟩
    rw [← String.toList_inj, String.toList_append, String.toList_ofList, hrest]
  · rintro ⟨rest, rfl⟩
    rw [String.toList_append]
    exact List.prefix_append _ _

/-- The window of the scanner of characters is a window of the text. -/
theorem isWindow_window (size : Nat) (text : String) :
    IsWindow size text (String.ofList (window size text.toList)) where
  isBeginning := by
    rw [← toList_prefix_iff, String.toList_ofList]
    exact window_isPrefix size text.toList
  fits := utf8ByteSize_window_le size text.toList
  longest := by
    intro front rest hsplit hfits
    rw [← toList_prefix_iff, String.toList_ofList, prefix_window_iff, String.ofList_toList]
    exact ⟨toList_prefix_iff.mpr ⟨rest, hsplit⟩, hfits⟩

/-- The confidence in a text depends on its window alone. -/
theorem confidence_window (text : String) :
    Lexer.Python.confidence (String.ofList (window 1000 text.toList)) =
      Lexer.Python.confidence text := by
  have hagain : window 1000 (window 1000 text.toList) = window 1000 text.toList :=
    window_eq_self (utf8ByteSize_window_le 1000 _)
  rw [Lexer.Python.confidence, Lexer.Python.confidence, String.toList_ofList, hagain]

/-- Going back from the size comes to a boundary, and what is before it is the window.  This is the
    longest beginning of the text that fits into the size, and it ends at the last boundary that
    does.  It is all of a text that fits, and otherwise at most three bytes of the size are left.
    The Python lexer looks only at the window of a thousand bytes. -/
theorem window_longest (size : Nat) (text : String) :
    let start := String.ofList (window size text.toList)
    byteWindow? size text = some start ∧ IsWindow size text start ∧
    IsLastBoundary text size start.utf8ByteSize ∧
    (text.utf8ByteSize ≤ size → start = text) ∧
    (size < text.utf8ByteSize → size ≤ start.utf8ByteSize + 3) ∧
    (byteWindow? 1000 text).map Lexer.Python.confidence = some (Lexer.Python.confidence text) := by
  intro start
  refine ⟨byteWindow?_eq size text, isWindow_window size text, isLastBoundary_window size text,
    fun hfits => ?_, fun hlong => ?_, ?_⟩
  · rw [← String.ofList_toList (s := text)] at hfits
    rw [← String.toList_inj, String.toList_ofList, window_eq_self hfits]
  · rw [← String.ofList_toList (s := text)] at hlong
    exact le_utf8ByteSize_window hlong
  · -- the guess looks at no more than the first window
    rw [byteWindow?_eq, Option.map_some, confidence_window]

/-- A size that ends in front of the last byte of a character leaves three bytes, and one that ends
    in the first character leaves nothing of the text. -/
theorem window_longest_of_wide :
    6 < "aé😀b".utf8ByteSize ∧ byteWindow? 6 "aé😀b" = some "aé" ∧ IsWindow 6 "aé😀b" "aé" ∧
      IsLastBoundary "aé😀b" 6 3 ∧ 6 ≤ "aé".utf8ByteSize + 3 ∧
      "aé😀b".utf8ByteSize ≤ 8 ∧ byteWindow? 8 "aé😀b" = some "aé😀b" ∧
      byteWindow? 3 "😀" = some "" ∧ byteWindow? 0 "😀" = some "" := by
  have hwindow : String.ofList (window 6 "aé😀b".toList) = "aé" := by decide
  have hlong : 6 < "aé😀b".utf8ByteSize := by decide
  have hfits : "aé😀b".utf8ByteSize ≤ 8 := by decide
  obtain ⟨hbytes, hlongest, hlast, -, hleft, -⟩ := window_longest 6 "aé😀b"
  obtain ⟨hall, -, -, hself, -⟩ := window_longest 8 "aé😀b"
  rw [hwindow] at hbytes hlongest hlast hleft
  rw [hself hfits] at hall
  exact ⟨hlong, hbytes, hlongest, hlast, hleft hlong, hfits, hall, (window_longest 3 "😀").1,
    (window_longest 0 "😀").1⟩

end Tinct
