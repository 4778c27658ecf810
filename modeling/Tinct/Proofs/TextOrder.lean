import Mathlib.Data.String.Basic

/-!
# The order of texts is the order of their bytes

Texts are compared character by character.  In UTF-8 a smaller character has a smaller byte at the
first place where the two differ, and no character is the beginning of another one, so comparing
the bytes of two texts gives the same order.  Also, a text begins with another one if its bytes do,
and the bytes of a character that takes more than one are all different from the characters that
take one.

## Key results

- `utf8EncodeChar_append_lt`: the bytes of a smaller character come first, whatever follows
- `exists_bytes`: what the bytes of a character tell
- `flatMap_utf8EncodeChar_prefix_iff`: texts begin with each other as their bytes do
- `compare_eq_lt_iff_utf8Bytes_lt`: two texts are in the order of their bytes
-/

namespace Tinct

/-- The bytes of a text in UTF-8. -/
def utf8Bytes (text : String) : List UInt8 := text.toUTF8.data.toList

/-- The bytes of a text are those of its characters. -/
theorem utf8Bytes_eq (text : String) :
    utf8Bytes text = text.toList.flatMap String.utf8EncodeChar := by
  have hbytes : text.toUTF8 = (text.toList.flatMap String.utf8EncodeChar).toByteArray := by
    conv_lhs => rw [← String.ofList_toList (s := text)]
    rw [String.toUTF8_eq_toByteArray, String.toByteArray_ofList]
    rfl
  rw [utf8Bytes, hbytes, List.toList_data_toByteArray]

/-! ## Characters -/

private theorem ofNat_lt_ofNat_iff {m n : Nat} (hm : m < 256) (hn : n < 256) :
    UInt8.ofNat m < UInt8.ofNat n ↔ m < n := by
  rw [UInt8.lt_iff_toNat_lt, UInt8.toNat_ofNat_of_lt' hm, UInt8.toNat_ofNat_of_lt' hn]

private theorem ofNat_eq_ofNat_iff {m n : Nat} (hm : m < 256) (hn : n < 256) :
    UInt8.ofNat m = UInt8.ofNat n ↔ m = n := by
  rw [← UInt8.toNat_inj, UInt8.toNat_ofNat_of_lt' hm, UInt8.toNat_ofNat_of_lt' hn]

/-- Of two numbers the smaller one has the smaller digit, in the base 64 of UTF-8, at the first place
    where they differ. -/
private theorem digits_lt_of_lt {m n : Nat} (h : m < n) :
    m / 262144 < n / 262144 ∨ m / 262144 = n / 262144 ∧
      (m / 4096 % 64 < n / 4096 % 64 ∨ m / 4096 % 64 = n / 4096 % 64 ∧
        (m / 64 % 64 < n / 64 % 64 ∨ m / 64 % 64 = n / 64 % 64 ∧ m % 64 < n % 64)) := by
  have htwo : ∀ k, k / 4096 = k / 64 / 64 := by
    intro k
    rw [Nat.div_div_eq_div_mul]
  have hthree : ∀ k, k / 262144 = k / 64 / 64 / 64 := by
    intro k
    rw [Nat.div_div_eq_div_mul, Nat.div_div_eq_div_mul]
  rw [htwo, htwo, hthree, hthree]
  omega

/-- The bytes of a smaller character come first, whatever follows. -/
theorem utf8EncodeChar_append_lt {c d : Char} (h : c < d) (front back : List UInt8) :
    String.utf8EncodeChar c ++ front < String.utf8EncodeChar d ++ back := by
  have hlt : c.val.toNat < d.val.toNat := h
  have hmax : d.val.toNat < 1114112 := by
    rcases d.valid with hlow | ⟨-, hhigh⟩ <;> omega
  unfold String.utf8EncodeChar
  generalize c.val.toNat = m at *
  generalize d.val.toNat = n at *
  have hdigits := digits_lt_of_lt hlt
  -- four digits are enough, and the first of them is below 8
  have hm : m / 262144 < 8 := by omega
  have hn : n / 262144 < 8 := by omega
  dsimp only
  rw [Nat.mod_eq_of_lt hm, Nat.mod_eq_of_lt hn]
  -- more bytes have a greater first byte, and equally many bytes are compared digit by digit
  split_ifs <;>
    simp (disch := omega) only [List.cons_append, List.nil_append, List.cons_lt_cons_iff,
      ofNat_lt_ofNat_iff, ofNat_eq_ofNat_iff] <;>
    omega

/-! ## Characters of one byte -/

/-- A character below 128 is a byte of its own. -/
theorem utf8EncodeChar_of_lt {c : Char} (h : c.toNat < 128) :
    String.utf8EncodeChar c = [c.toUInt8] :=
  String.utf8EncodeChar_eq_singleton
    (Char.utf8Size_eq_one_iff.mpr (UInt32.le_iff_toNat_le.mpr (Nat.le_of_lt_succ h)))

theorem toNat_toUInt8_of_lt {c : Char} (h : c.toNat < 128) : c.toUInt8.toNat = c.toNat := by
  rw [Char.toUInt8, UInt32.toNat_toUInt8]
  exact Nat.mod_eq_of_lt (Nat.lt_trans h (by decide))

/-- Low characters are told apart by their bytes. -/
theorem toUInt8_eq_iff {c d : Char} (hc : c.toNat < 128) (hd : d.toNat < 128) :
    c.toUInt8 = d.toUInt8 ↔ c = d := by
  rw [← UInt8.toNat_inj, toNat_toUInt8_of_lt hc, toNat_toUInt8_of_lt hd, Char.toNat_inj]

/-- All bytes of another character are above. -/
theorem le_of_mem_utf8EncodeChar {c : Char} (h : 128 ≤ c.toNat) :
    ∀ b ∈ String.utf8EncodeChar c, 128 ≤ b.toNat := by
  have hv : ¬ c.val.toNat ≤ 127 := Nat.not_le.mpr h
  unfold String.utf8EncodeChar
  generalize c.val.toNat = v at hv
  dsimp only
  rw [if_neg hv]
  split_ifs <;> simp <;> omega

/-- The first byte of a character tells whether it is a given one below 128, and all its other bytes
    are above. -/
theorem exists_bytes (c : Char) :
    ∃ b more, String.utf8EncodeChar c = b :: more ∧ (∀ x ∈ more, 128 ≤ x.toNat) ∧
      ∀ d : Char, d.toNat < 128 → (b = d.toUInt8 ↔ c = d) := by
  rcases Nat.lt_or_ge c.toNat 128 with hlow | hhigh
  · exact ⟨c.toUInt8, [], utf8EncodeChar_of_lt hlow, nofun, fun d hd => toUInt8_eq_iff hlow hd⟩
  · have hall := le_of_mem_utf8EncodeChar hhigh
    obtain ⟨b, more, hbytes⟩ := List.exists_cons_of_ne_nil (String.utf8EncodeChar_ne_nil (c := c))
    rw [hbytes, List.forall_mem_cons] at hall
    refine ⟨b, more, hbytes, hall.2, fun d hd => iff_of_false ?_ ?_⟩
    · rintro rfl
      rw [toNat_toUInt8_of_lt hd] at hall
      omega
    · rintro rfl
      omega

/-! ## Texts -/

/-- Texts begin with each other as their bytes do. -/
theorem flatMap_utf8EncodeChar_prefix_iff {mark text : List Char} :
    mark.flatMap String.utf8EncodeChar <+: text.flatMap String.utf8EncodeChar ↔ mark <+: text := by
  constructor
  · rintro ⟨more, h⟩
    refine List.isPrefix_of_utf8Encode_append_eq_utf8Encode more.toByteArray ?_
    rw [List.utf8Encode, List.utf8Encode, ← h, List.toByteArray_append]
  · rintro ⟨more, rfl⟩
    rw [List.flatMap_append]
    exact List.prefix_append _ _

/-- Characters in order have bytes in order. -/
private theorem flatMap_utf8EncodeChar_lt {front back : List Char} (h : front < back) :
    front.flatMap String.utf8EncodeChar < back.flatMap String.utf8EncodeChar := by
  induction front generalizing back with
  | nil =>
    cases back with
    | nil => exact absurd h (List.lt_irrefl [])
    | cons d back =>
      obtain ⟨first, rest, hbytes⟩ := List.exists_cons_of_ne_nil (String.utf8EncodeChar_ne_nil (c := d))
      rw [List.flatMap_nil, List.flatMap_cons, hbytes]
      exact List.nil_lt_cons _ _
  | cons c front ih =>
    cases back with
    | nil => exact absurd h (List.not_lt_nil _)
    | cons d back =>
      rw [List.flatMap_cons, List.flatMap_cons]
      -- the first characters differ, or they are the same and the others decide
      rcases List.cons_lt_cons_iff.mp h with hlt | ⟨rfl, hrest⟩
      · exact utf8EncodeChar_append_lt hlt _ _
      · exact List.append_left_lt (ih hrest)

/-- A text below another one has bytes below its bytes. -/
theorem utf8Bytes_lt_of_lt {a b : String} (h : a < b) : utf8Bytes a < utf8Bytes b := by
  rw [utf8Bytes_eq, utf8Bytes_eq]
  exact flatMap_utf8EncodeChar_lt (String.lt_iff_toList_lt.mp h)

theorem utf8Bytes_le_of_le {a b : String} (h : a ≤ b) : utf8Bytes a ≤ utf8Bytes b := by
  rcases lt_or_eq_of_le h with hlt | rfl
  · exact List.le_of_lt (utf8Bytes_lt_of_lt hlt)
  · exact List.le_refl _

/-- Two texts of which neither has the smaller bytes are the same. -/
theorem eq_of_utf8Bytes_le {a b : String} (hab : utf8Bytes a ≤ utf8Bytes b)
    (hba : utf8Bytes b ≤ utf8Bytes a) : a = b := by
  rcases lt_trichotomy a b with hlt | heq | hgt
  · exact absurd (utf8Bytes_lt_of_lt hlt) hba
  · exact heq
  · exact absurd (utf8Bytes_lt_of_lt hgt) hab

/-- Two texts are in the order of their bytes. -/
theorem compare_eq_lt_iff_utf8Bytes_lt {a b : String} :
    compare a b = .lt ↔ utf8Bytes a < utf8Bytes b := by
  constructor
  · intro h
    exact utf8Bytes_lt_of_lt (compare_lt_iff_lt.mp h)
  · intro h
    rcases lt_trichotomy a b with hlt | rfl | hgt
    · exact compare_lt_iff_lt.mpr hlt
    · exact absurd h (List.lt_irrefl _)
    · exact absurd h (List.lt_asymm (utf8Bytes_lt_of_lt hgt))

end Tinct
