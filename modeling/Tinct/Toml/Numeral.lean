import Tinct.Number.Digits
import Tinct.Toml

/-! # TOML numbers and times

Numbers, dates and times are words without blanks, except that a blank may stand between a date and
a time.  Single bars may separate the digits of a number.

* `integer?`, `float?` and `time?` read whole words. -/

namespace Tinct.Toml

/-! ## Numbers -/

/-- The sign in front of a number, and the text behind it. -/
def sign (word : List Char) : Bool × List Char :=
  match word with
  | '-' :: rest => (true, rest)
  | '+' :: rest => (false, rest)
  | word => (false, word)

/-- The digits of a run in which single bars may stand between digits. -/
def digits? (isDigit : Char → Bool) : List Char → Option (List Char)
  | [] => none
  | [c] => if isDigit c then some [c] else none
  | c :: '_' :: rest => if isDigit c then (digits? isDigit rest).map (c :: ·) else none
  | c :: rest => if isDigit c then (digits? isDigit rest).map (c :: ·) else none

/-- The digits of a number in the decimal system, which has no needless zero in front. -/
def wholeDigits? (word : List Char) : Option (List Char) :=
  (digits? Char.isDigit word).filter fun ds => ds.head? ≠ some '0' || ds.length = 1

/-- The number that digits of a base stand for, behind the mark of that base. -/
def based? : List Char → Option Nat
  | '0' :: 'x' :: word => (digits? (digitOf? 16 · |>.isSome) word).bind (valueOf? 16)
  | '0' :: 'o' :: word => (digits? (digitOf? 8 · |>.isSome) word).bind (valueOf? 8)
  | '0' :: 'b' :: word => (digits? (digitOf? 2 · |>.isSome) word).bind (valueOf? 2)
  | _ => none

/-- The integer of a word, which has to fit 64 bits. -/
def integer? (word : List Char) : Option Int :=
  let (negative, body) := sign word
  let signed (n : Nat) : Int := if negative then -n else n
  let number := (wholeDigits? body).map (signed <| decimalValue ·)
  (number.or ((based? word).map Int.ofNat)).filter fitsWord

/-- The exponent at the end of a number, which may be missing. -/
def exponent? : List Char → Option Int
  | [] => some 0
  | _ :: word =>
    let (negative, body) := sign word
    (digits? Char.isDigit body).map fun ds =>
      if negative then -(decimalValue ds : Int) else decimalValue ds

/-- The digits behind the point of a number, which may be missing. -/
def fraction? : List Char → Option (List Char)
  | [] => some []
  | _ :: word => digits? Char.isDigit word

/-- The decimal of a word with a fraction or an exponent. -/
def decimal? (word : List Char) : Option Decimal := do
  let (negative, body) := sign word
  let isMark (c : Char) := c = 'e' || c = 'E'
  let number := body.takeWhile (!isMark ·)
  let whole ← wholeDigits? (number.takeWhile (· ≠ '.'))
  let fraction ← fraction? (number.dropWhile (· ≠ '.'))
  let exponent ← exponent? (body.dropWhile (!isMark ·))
  if body.all fun c => c ≠ '.' && !isMark c then none
  return ⟨negative, decimalValue (whole ++ fraction), exponent - fraction.length⟩

/-- The floating-point number of a word.  A positive number must not be beyond the largest one. -/
def float? (word : List Char) : Option Double :=
  let (negative, body) := sign word
  if body = ['i', 'n', 'f'] then some (.infinite negative)
  else if body = ['n', 'a', 'n'] then some .nan
  else ((decimal? word).map Double.ofDecimal).filter (· ≠ .infinite false)

/-! ## Times -/

/-- A number of a fixed number of digits between two bounds, as it is written, and the text behind
it. -/
def field? (width low high : Nat) (word : List Char) : Option (List Char × List Char) :=
  let digits := word.take width
  let n := decimalValue digits
  if digits.length = width && digits.all Char.isDigit && low ≤ n && n ≤ high then
    some (digits, word.drop width)
  else none

/-- The text behind a character that has to stand there. -/
def expect? (c : Char) : List Char → Option (List Char)
  | d :: rest => if d = c then some rest else none
  | [] => none

/-- How many days a month has. -/
def daysOf (year month : Nat) : Nat :=
  if month = 2 then
    if year % 4 = 0 && (year % 100 ≠ 0 || year % 400 = 0) then 29 else 28
  else if month = 4 || month = 6 || month = 9 || month = 11 then 30
  else 31

/-- A date, and the text behind it. -/
def date? (word : List Char) : Option (List Char × List Char) := do
  let (year, rest) ← field? 4 0 9999 word
  let (month, rest) ← field? 2 1 12 (← expect? '-' rest)
  let days := daysOf (decimalValue year) (decimalValue month)
  let (day, rest) ← field? 2 1 days (← expect? '-' rest)
  return (year ++ '-' :: month ++ '-' :: day, rest)

/-- The part of a second behind its point, of which nine places are kept and final zeros are
dropped. -/
def secondPart (digits : List Char) : List Char :=
  let kept := ((digits.take 9).reverse.dropWhile (· = '0')).reverse
  if kept.isEmpty then [] else '.' :: kept

/-- A time of day whose hour is at most the given one, and the text behind it. -/
def clock? (lastHour : Nat) (word : List Char) : Option (List Char × List Char) := do
  let (hour, rest) ← field? 2 0 lastHour word
  let (minute, rest) ← field? 2 0 59 (← expect? ':' rest)
  let (second, rest) ← field? 2 0 60 (← expect? ':' rest)
  let whole := hour ++ ':' :: minute ++ ':' :: second
  match rest with
  | '.' :: rest =>
    let digits := rest.takeWhile Char.isDigit
    if digits.isEmpty then none
    return (whole ++ secondPart digits, rest.dropWhile Char.isDigit)
  | rest => return (whole, rest)

/-- The distance of a time from universal time, which may be missing; no distance counts as
positive. -/
def offset? : List Char → Option (List Char)
  | [] => some []
  | ['Z'] => some ['Z']
  | ['z'] => some ['Z']
  | c :: word => do
    if c ≠ '+' && c ≠ '-' then none
    let (hour, rest) ← field? 2 0 23 word
    let (minute, rest) ← field? 2 0 59 (← expect? ':' rest)
    if !rest.isEmpty then none
    let c := if decimalValue (hour ++ minute) = 0 then '+' else c
    return c :: hour ++ ':' :: minute

/-- A time with the date in front of it, and perhaps with an offset. -/
def timeOn? (date word : List Char) : Option (List Char) := do
  let (clock, rest) ← clock? 23 word
  return date ++ 'T' :: clock ++ (← offset? rest)

/-- The date, the time of day, or both, that a word stands for. -/
def time? (word : List Char) : Option (List Char) :=
  match date? word with
  | some (date, []) => some date
  | some (date, c :: rest) => if c = 'T' || c = 't' then timeOn? date rest else none
  | none =>
    match clock? 23 word with
    | some (clock, []) => some clock
    | _ => none

end Tinct.Toml
