import Tinct.Number.Double

/-! # JSON numbers

A number is kept as it is written: its digits, how many of them stand behind the point, and its
exponent.  As a double-precision number it is not the nearest one.  Only digits that fit 64 bits
together are taken, and each step of the scaling by a power of ten is rounded, so a number close to
the largest one can come out beyond it.

* `leading` is what is taken of the digits, with the power of ten to scale it by;
* `toDouble?` is the double-precision number, if it is not beyond the largest one. -/

namespace Tinct.Json

/-- A number as it is written. -/
structure Number where
  negative : Bool
  /-- All digits, without the point. -/
  digits : Nat
  /-- How many digits stand behind the point. -/
  places : Nat
  exponent : Option Int
deriving DecidableEq, Repr

namespace Number

/-- A natural number. -/
def ofNat (n : Nat) : Number := ⟨false, n, 0, none⟩

/-- Whether a number is written without a fraction and an exponent. -/
def integral (n : Number) : Bool := n.places = 0 && n.exponent.isNone

/-- A number without the last digits that do not fit 64 bits, and how many those are. -/
def shorten (n : Nat) : Nat × Nat :=
  if h : n < UInt64.size then (n, 0)
  else
    let rest := shorten (n / 10)
    (rest.1, rest.2 + 1)
termination_by n
decreasing_by
  have : 0 < UInt64.size := by decide
  exact Nat.div_lt_self (Nat.lt_of_lt_of_le this (Nat.le_of_not_lt h)) (by decide)

/-- The digits of a number that are taken, as a natural number, and the exponent of the power of ten
that belongs to it.  Digits behind the point are taken as long as they fit, even if not all digits
in front of it did. -/
def leading (n : Number) : Nat × Int :=
  let unit := Nat.pow 10 n.places
  let (whole, dropped) := shorten (n.digits / unit)
  let (m, more) := shorten (whole * unit + n.digits % unit)
  (m, n.exponent.getD 0 + dropped + more - n.places)

/-- A positive number times a power of ten, rounded after each step: a large negative power is taken
in two steps. -/
def scale (x : Double) (e : Int) : Double :=
  if 0 ≤ e then x.times (.powerOfTen e.toNat)
  else if -308 ≤ e then x.dividedBy (.powerOfTen (-e).toNat)
  else (x.dividedBy (.powerOfTen 308)).dividedBy (.powerOfTen (min 308 (-e - 308).toNat))

/-- The double-precision number of a number, if it is not beyond the largest one. -/
def toDouble? (n : Number) : Option Double :=
  let (m, e) := n.leading
  if m = 0 then some (.finite n.negative 0 0)
  else if 308 < e then none
  else
    match scale (.ofQuotient m 1) e with
    | .finite _ m e => some (.finite n.negative m e)
    | _ => none

/-- Whether a number is not beyond double precision. -/
def isFinite (n : Number) : Bool := n.toDouble?.isSome

end Number

end Tinct.Json
