import Tinct.Number.Rounding

/-! # Double-precision numbers

Numbers of double precision as exact values, with their shortest decimal text: of the decimals that
are rounded to the number, one with the fewest digits, and of those the nearest, the larger of two
equally near ones.

* `ofDecimal` rounds a decimal;
* `times` and `dividedBy` round products and quotients;
* `shortest` is the shortest decimal of a positive number;
* `text` writes a number without an exponent. -/

namespace Tinct

/-- A double-precision number. -/
inductive Double where
  /-- The number `mantissa · 2 ^ exponent` with its sign. -/
  | finite (negative : Bool) (mantissa : Nat) (exponent : Int)
  | infinite (negative : Bool)
  | nan
deriving DecidableEq, Repr

namespace Double

/-- The number nearest to a decimal, which is infinite beyond the largest number. -/
def ofDecimal (x : Decimal) : Double :=
  match BinaryFormat.double.nearestDecimal? x with
  | some (m, e) => .finite x.negative m e
  | none => .infinite x.negative

/-- The number nearest to a quotient of natural numbers. -/
def ofQuotient (num den : Nat) : Double :=
  match BinaryFormat.double.nearest? num den with
  | some (m, e) => .finite false m e
  | none => .infinite false

/-- The quotient of natural numbers that a finite number is without its sign. -/
def quotient : Double → Nat × Nat
  | finite _ m e => scaleDown 2 m 1 (-e)
  | _ => (0, 1)

/-- The number nearest to a power of ten. -/
def powerOfTen (n : Nat) : Double := ofQuotient (Nat.pow 10 n) 1

/-- The number nearest to the product of two positive finite numbers. -/
def times (x y : Double) : Double :=
  ofQuotient (x.quotient.1 * y.quotient.1) (x.quotient.2 * y.quotient.2)

/-- The number nearest to the quotient of two positive finite numbers. -/
def dividedBy (x y : Double) : Double :=
  ofQuotient (x.quotient.1 * y.quotient.2) (x.quotient.2 * y.quotient.1)

/-- Whether a number is zero, of either sign. -/
def isZero : Double → Bool
  | finite _ m _ => m = 0
  | _ => false

/-- The natural number nearest to a number, of two equally near ones the larger one, and not larger
than a bound.  Negative numbers, and what is no number, count as zero. -/
def toNat (bound : Nat) : Double → Nat
  | finite false m e =>
    let (n, d) := scaleDown 2 m 1 (-e)
    min bound (roundHalfUp n d)
  | infinite false => bound
  | _ => 0

/-! ## Shortest decimals -/

/-- The sides of the comparison of `quarters · 2 ^ (e - 2)` with `digits · 10 ^ q`. -/
def sides (quarters : Nat) (e : Int) (digits : Nat) (q : Int) : Nat × Nat :=
  let (a, b) := scaleDown 2 quarters 1 (2 - e)
  let (c, d) := scaleDown 10 digits 1 (-q)
  (a * d, c * b)

/-- Whether the decimal `digits · 10 ^ q` is rounded to `m · 2 ^ e`.  The numbers below a power of
two lie closer together, and the ends of the interval belong to it if `m` is even. -/
def readsBack (m : Nat) (e : Int) (digits : Nat) (q : Int) : Bool :=
  let closer := m = Nat.pow 2 52 && BinaryFormat.double.minExponent < e
  let below := if closer then 4 * m - 1 else 4 * m - 2
  let (low, x) := sides below e digits q
  let (high, y) := sides (4 * m + 2) e digits q
  if m % 2 = 0 then low ≤ x && y ≤ high else low < x && y < high

/-- Of the two multiples of `10 ^ q` around `m · 2 ^ e` those that are rounded to it, the nearer one
first, and of two equally near ones the larger one. -/
def candidates (m : Nat) (e q : Int) : List Nat :=
  let (v, unit) := sides (4 * m) e 1 q
  let below := v / unit
  let ordered := if 2 * (v % unit) < unit then [below, below + 1] else [below + 1, below]
  ordered.filter fun d => d ≠ 0 && readsBack m e d q

/-- The first grid of decimals with a number that is rounded to `m · 2 ^ e`, from `10 ^ q` on. -/
def searchGrids (m : Nat) (e q : Int) : Nat → Nat × Int
  | 0 => (0, 0)
  | steps + 1 =>
    match candidates m e q with
    | d :: _ => (d, q)
    | [] => searchGrids m e (q - 1) steps

/-- The shortest decimal of a positive number, as digits and exponent. -/
def shortest (m : Nat) (e : Int) : Nat × Int :=
  let (n, d) := scaleDown 2 (m * Nat.pow 10 340) 1 (-e)
  searchGrids m e ((Nat.toDigits 10 (n / d)).length - 340) 20

/-- A decimal written with a point and without an exponent. -/
def positional (digits : Nat) (q : Int) : List Char :=
  let ds := Nat.toDigits 10 digits
  if 0 ≤ q then ds ++ List.replicate q.toNat '0'
  else
    let places := (-q).toNat
    if ds.length ≤ places then '0' :: '.' :: List.replicate (places - ds.length) '0' ++ ds
    else ds.take (ds.length - places) ++ '.' :: ds.drop (ds.length - places)

/-- The shortest text of a number, without an exponent. -/
def text : Double → String
  | finite negative m e =>
    let (digits, q) := if m = 0 then (0, 0) else shortest m e
    String.ofList ((if negative then ['-'] else []) ++ positional digits q)
  | infinite negative => if negative then "-inf" else "inf"
  | nan => "NaN"

/-- The text of a number that shows at least one decimal place of finite numbers. -/
def pointedText (x : Double) : String :=
  match x with
  | finite _ _ _ => if x.text.toList.contains '.' then x.text else x.text ++ ".0"
  | x => x.text

end Double

end Tinct
