/-! # Rounding to binary and decimal places

Exact rounding of a positive quotient of natural numbers: to the nearest integer, to the nearest
number of a binary floating-point format, and to the shortest decimal that reads back as such a
number.  Everything is computed on natural numbers, so no step loses a digit. -/

namespace Tinct

/-- The integer nearest to `num / den`; of two equally near ones the even one. -/
def roundHalfEven (num den : Nat) : Nat :=
  let q := num / den
  let twice := 2 * (num % den)
  if twice < den then q else if den < twice then q + 1 else if q % 2 = 0 then q else q + 1

/-- The integer nearest to `num / den`; of two equally near ones the larger one. -/
def roundHalfUp (num den : Nat) : Nat := (2 * num + den) / (2 * den)

/-- A decimal numeral: the number `digits · 10 ^ exponent`, with its sign. -/
structure Decimal where
  negative : Bool
  digits : Nat
  exponent : Int
deriving DecidableEq, Repr

/-- A binary floating-point format.  Its finite numbers are `m · 2 ^ e` with `m` below
`2 ^ precision` and `e` between the bounds. -/
structure BinaryFormat where
  precision : Nat
  minExponent : Int
  maxExponent : Int
deriving DecidableEq, Repr

/-- Single precision. -/
def BinaryFormat.single : BinaryFormat := ⟨24, -149, 104⟩

/-- Double precision. -/
def BinaryFormat.double : BinaryFormat := ⟨53, -1074, 971⟩

/-- The quotient `num / den` times `base ^ (-e)`, again as numerator and denominator. -/
def scaleDown (base num den : Nat) (e : Int) : Nat × Nat :=
  if 0 ≤ e then (num, den * Nat.pow base e.toNat) else (num * Nat.pow base (-e).toNat, den)

namespace BinaryFormat

/-- The number `m · 2 ^ e` of the format that is nearest to `num / den`, as `(m, e)`; of two equally
near ones the one with even `m`.  The result is `none` beyond the largest number. -/
def nearest? (f : BinaryFormat) (num den : Nat) : Option (Nat × Int) :=
  if num = 0 then some (0, f.minExponent)
  else
    let low := max f.minExponent ((num.log2 : Int) - den.log2 - f.precision)
    let (n, d) := scaleDown 2 num den low
    let e := if n / d < Nat.pow 2 f.precision then low else low + 1
    let (n, d) := scaleDown 2 num den e
    let m := roundHalfEven n d
    let (m, e) := if m < Nat.pow 2 f.precision then (m, e) else (m / 2, e + 1)
    if f.maxExponent < e then none else some (m, e)

/-- The number of the format nearest to a decimal.  A decimal with more than 400 places before or
behind the point is beyond every format, or nearest to zero. -/
def nearestDecimal? (f : BinaryFormat) (x : Decimal) : Option (Nat × Int) :=
  let places := (Nat.toDigits 10 x.digits).length + x.exponent
  if x.digits = 0 || places < -400 then some (0, f.minExponent)
  else if 400 < places then none
  else if 0 ≤ x.exponent then f.nearest? (x.digits * Nat.pow 10 x.exponent.toNat) 1
  else f.nearest? x.digits (Nat.pow 10 (-x.exponent).toNat)

end BinaryFormat

end Tinct
