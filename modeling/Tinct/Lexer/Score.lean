import Tinct.Number.Double

/-! # Scores

A score says how confident a lexer is that a text is in its language.  Scores are numbers of single
precision, so that two numbers that differ only beyond that precision are the same score.  They are
held as multiples of the smallest such number, so their order is the order of the integers.  A zero
has a sign too, which shows in its text and counts for nothing in the order. -/

namespace Tinct

/-- A single-precision number, with its size in units of `2 ^ (-149)`. -/
structure Score where
  negative : Bool
  size : Nat
deriving DecidableEq, Repr

namespace Score

/-- No confidence. -/
def zero : Score := ⟨false, 0⟩

/-- The score as an integer, in the same units. -/
def units (s : Score) : Int := if s.negative then -s.size else s.size

instance : LT Score := ⟨fun a b => a.units < b.units⟩

instance (a b : Score) : Decidable (a < b) := inferInstanceAs (Decidable (a.units < b.units))

theorem lt_iff {a b : Score} : a < b ↔ a.units < b.units := Iff.rfl

/-- The size of a score beyond all numbers, one step above the largest of them. -/
def beyond : Nat := Nat.pow 2 277

/-- The score nearest to a double-precision number. -/
def ofDouble : Double → Score
  | x@(.finite negative _ _) =>
    match BinaryFormat.single.nearest? x.quotient.1 x.quotient.2 with
    | some (m, e) => ⟨negative, m * Nat.pow 2 (e + 149).toNat⟩
    | none => ⟨negative, beyond⟩
  | .infinite negative => ⟨negative, beyond⟩
  | .nan => zero

/-- The score nearest to a number of hundredths. -/
def hundredths (n : Nat) : Score := ofDouble (.ofDecimal ⟨false, n, -2⟩)

/-- The score with two decimal places, a half going to the even neighbour; `inf` beyond all
numbers. -/
def text (s : Score) : String :=
  let cents := roundHalfEven (s.size * 100) (Nat.pow 2 149)
  let places := toString (cents % 100)
  (if s.negative then "-" else "") ++
    if beyond ≤ s.size then "inf"
    else
      toString (cents / 100) ++ "." ++ if cents % 100 < 10 then "0" ++ places else places

end Score

end Tinct
