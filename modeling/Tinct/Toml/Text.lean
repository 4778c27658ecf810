import Tinct.Number.Digits

/-! # TOML strings

A string stands in double quotes, where a backslash starts an escape, or in single quotes, where it
does not.  Three quotes on both sides enclose a string of several lines.

* `string?` reads a string of any form. -/

namespace Tinct.Toml

/-- What a reader finds at the start of a text, and the text behind it. -/
abbrev Reader (α : Type) := List Char → Option (α × List Char)

/-- Whether a character is a space or a tab. -/
def isGap (c : Char) : Bool := c = ' ' || c = '\t'

/-- Whether a character can stand on a line: a tab, or no control character of ASCII. -/
def isInline (c : Char) : Bool := c = '\t' || 0x20 ≤ c.toNat && c ≠ '\x7f'

/-- The character that a backslash in front of the given one stands for. -/
def simpleEscape? : Char → Option Char
  | 'b' => some '\x08'
  | 't' => some '\t'
  | 'n' => some '\n'
  | 'f' => some '\x0c'
  | 'r' => some '\r'
  | '"' => some '"'
  | '\\' => some '\\'
  | _ => none

/-- How many hexadecimal digits follow a letter behind a backslash. -/
def escapeDigits : Char → Nat
  | 'u' => 4
  | 'U' => 8
  | _ => 0

/-- The character of an escape, and how many characters it takes behind its letter. -/
def escape? (letter : Char) (rest : List Char) : Option (Char × Nat) :=
  if escapeDigits letter = 0 then (simpleEscape? letter).map (·, 0)
  else
    let digits := rest.take (escapeDigits letter)
    if digits.length = escapeDigits letter then (charOfHex? digits).map (·, digits.length) else none

/-- The rest of a string on one line, and the text behind its closing quote. -/
def lineString? (quote : Char) : Reader (List Char)
  | [] => none
  | c :: rest =>
    if c = quote then some ([], rest)
    else if c = '\\' && quote = '"' then
      match rest with
      | [] => none
      | letter :: rest => do
        let (e, n) ← escape? letter rest
        let (content, behind) ← lineString? quote (rest.drop n)
        return (e :: content, behind)
    else if isInline c then
      (lineString? quote rest).map fun (content, behind) => (c :: content, behind)
    else none
termination_by text => text.length
decreasing_by all_goals simp only [List.length_cons, List.length_drop]; omega

/-- How many blanks and line endings a backslash in front of a text hides, of which the first line
ending has to be on the same line. -/
def hiddenLength (text : List Char) : Nat :=
  if (text.dropWhile isGap).head? = some '\n' then
    (text.takeWhile fun c => isGap c || c = '\n').length
  else 0

/-- The rest of a string of several lines, and the text behind its three closing quotes.  Of more
than three quotes in a row the first ones, but at most two, belong to the string. -/
def blockString? (quote : Char) : Reader (List Char)
  | [] => none
  | c :: rest =>
    if c = quote then
      let quotes := (rest.takeWhile (· = quote)).length + 1
      if quotes < 3 then
        (blockString? quote rest).map fun (content, behind) => (c :: content, behind)
      else
        let own := min (quotes - 3) 2
        some (List.replicate own quote, rest.drop (own + 2))
    else if c = '\\' && quote = '"' then
      if hiddenLength rest ≠ 0 then blockString? quote (rest.drop (hiddenLength rest))
      else
        match rest with
        | [] => none
        | letter :: rest => do
          let (e, n) ← escape? letter rest
          let (content, behind) ← blockString? quote (rest.drop n)
          return (e :: content, behind)
    else if c = '\n' || isInline c then
      (blockString? quote rest).map fun (content, behind) => (c :: content, behind)
    else none
termination_by text => text.length
decreasing_by all_goals simp only [List.length_cons, List.length_drop]; omega

/-- Reads a string that starts with a quote.  A line ending right behind three opening quotes is
dropped. -/
def string? (quote : Char) (text : List Char) : Option (String × List Char) := do
  let (content, rest) ←
    if text.take 3 = [quote, quote, quote] then
      let rest := text.drop 3
      blockString? quote (if rest.head? = some '\n' then rest.tail else rest)
    else lineString? quote text.tail
  return (String.ofList content, rest)

end Tinct.Toml
