/-! # Digits

The numbers that runs of digits stand for, in the decimal system and in any base up to sixteen. -/

namespace Tinct

/-- The number that a run of decimal digits stands for. -/
def decimalValue (digits : List Char) : Nat :=
  digits.foldl (fun n d => n * 10 + (d.toNat - 48)) 0

/-- The value of a hexadecimal digit, in letters of either case. -/
def hexDigit? (c : Char) : Option Nat :=
  if '0' ≤ c && c ≤ '9' then some (c.toNat - 48)
  else if 'a' ≤ c && c ≤ 'f' then some (c.toNat - 87)
  else if 'A' ≤ c && c ≤ 'F' then some (c.toNat - 55)
  else none

/-- The value of a digit of a base. -/
def digitOf? (base : Nat) (c : Char) : Option Nat := (hexDigit? c).filter (· < base)

/-- The number that a run of digits of a base stands for. -/
def valueOf? (base : Nat) (digits : List Char) : Option Nat :=
  digits.foldlM (fun n c => (digitOf? base c).map (n * base + ·)) 0

/-- The character of a number that is one. -/
def charOfNumber? (n : Nat) : Option Char := if n.isValidChar then some (Char.ofNat n) else none

/-- The character whose number is written with as many hexadecimal digits as there are. -/
def charOfHex? (digits : List Char) : Option Char := (valueOf? 16 digits).bind charOfNumber?

/-- Whether an integer can be held in 64 bits. -/
def fitsWord (n : Int) : Bool := Int64.minValue.toInt ≤ n && n ≤ Int64.maxValue.toInt

end Tinct
