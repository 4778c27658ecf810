import Tinct.Number.Digits
import Tinct.Yaml.Place

/-! # YAML scalars

The texts of scalars in their four forms: plain, in single and in double quotes, and in blocks.  In
all but the blocks a gap of blanks and line endings between two characters is folded: blanks are
kept, and line endings become a space, or all but the first of them are kept.

* `quoted?` and `plain?` read scalars that are folded as they are read;
* `block?` reads the lines of a block scalar. -/

namespace Tinct.Yaml

/-- What lies between two characters of a scalar. -/
inductive Gap where
  /-- Spaces and tabs on one line. -/
  | blanks (chars : List Char)
  /-- Line endings: the first one, unless it is hidden, and the others. -/
  | breaks (first : Option Char) (more : List Char)
deriving DecidableEq, Repr

namespace Gap

/-- No gap. -/
def none : Gap := blanks []

/-- The gap with one more space, tab or line ending; blanks around line endings do not count. -/
def add (c : Char) : Gap → Gap
  | blanks chars => if isBreak c then breaks (some c) [] else blanks (chars ++ [c])
  | breaks first more => if isBreak c then breaks first (more ++ [c]) else breaks first more

/-- Whether the gap reaches over a line ending. -/
def hasBreak : Gap → Bool
  | blanks _ => false
  | breaks _ _ => true

/-- The text that a gap is folded to. -/
def folded : Gap → List Char
  | blanks chars => chars
  | breaks (some '\n') [] => [' ']
  | breaks (some '\n') more => more
  | breaks (some c) more => c :: more
  | breaks Option.none more => more

end Gap

/-! ## Quoted scalars -/

/-- The character that a backslash in front of the given one stands for. -/
def simpleEscape? : Char → Option Char
  | '0' => some '\x00'
  | 'a' => some '\x07'
  | 'b' => some '\x08'
  | 't' => some '\t'
  | '\t' => some '\t'
  | 'n' => some '\n'
  | 'v' => some '\x0b'
  | 'f' => some '\x0c'
  | 'r' => some '\r'
  | 'e' => some '\x1b'
  | ' ' => some ' '
  | '"' => some '"'
  | '/' => some '/'
  | '\\' => some '\\'
  | 'N' => some '\x85'
  | '_' => some '\xa0'
  | 'L' => some '\u2028'
  | 'P' => some '\u2029'
  | _ => none

/-- How many hexadecimal digits follow a letter behind a backslash. -/
def escapeDigits : Char → Nat
  | 'x' => 2
  | 'u' => 4
  | 'U' => 8
  | _ => 0

/-- The character of an escape, and how many places it takes behind its letter. -/
def escape? (letter : Char) (rest : List Place) : Option (Char × Nat) :=
  if escapeDigits letter = 0 then (simpleEscape? letter).map (·, 0)
  else
    let digits := (rest.take (escapeDigits letter)).map (·.char)
    if digits.length = escapeDigits letter then
      (charOfHex? digits).map (·, digits.length)
    else none

/-- The text behind a gap in a scalar, with the gap in front of it. -/
def Gap.joined {α : Type} (gap : Gap) : List Char × α → List Char × α
  | (text, rest) => (gap.folded ++ text, rest)

/-- A scalar with one more character and a gap in front. -/
def Gap.continued {α : Type} (gap : Gap) (c : Char) : List Char × α → List Char × α
  | (text, rest) => (gap.folded ++ c :: text, rest)

/-- The rest of a scalar in single quotes behind a gap, and the places behind its closing quote.
Two quotes in a row stand for one. -/
def singleQuoted? (gap : Gap) : List Place → Option (List Char × List Place)
  | [] => none
  | p :: rest =>
    if isMarker (p :: rest) then none
    else if isBreak p.char || isGapChar p.char then singleQuoted? (gap.add p.char) rest
    else if p.char = '\'' then
      match rest with
      | q :: behind =>
        if q.char = '\'' then (singleQuoted? .none behind).map (gap.continued '\'')
        else some (gap.folded, rest)
      | [] => some (gap.folded, [])
    else (singleQuoted? .none rest).map (gap.continued p.char)

/-- The rest of a scalar in double quotes behind a gap, and the places behind its closing quote.  A
backslash starts an escape or hides a line ending. -/
def doubleQuoted? (gap : Gap) (ps : List Place) : Option (List Char × List Place) :=
  match ps with
  | [] => none
  | p :: rest =>
    if isMarker (p :: rest) then none
    else if isBreak p.char || isGapChar p.char then doubleQuoted? (gap.add p.char) rest
    else if p.char = '"' then some (gap.folded, rest)
    else if p.char = '\\' then
      match rest with
      | [] => none
      | q :: behind =>
        if isBreak q.char then (doubleQuoted? (.breaks none []) behind).map gap.joined
        else
          match escape? q.char behind with
          | some (c, n) => (doubleQuoted? .none (behind.drop n)).map (gap.continued c)
          | none => none
    else (doubleQuoted? .none rest).map (gap.continued p.char)
termination_by ps.length
decreasing_by all_goals simp only [List.length_cons, List.length_drop]; omega

/-! ## Plain scalars -/

/-- Whether a character is a bracket, a brace or a comma, which have a meaning in flow
collections. -/
def isFlowMark (c : Char) : Bool :=
  c = ',' || c = '[' || c = ']' || c = '\x7b' || c = '\x7d'

/-- Whether a plain scalar ends before the first of the given places. -/
def endsPlain (inFlow : Bool) (ps : List Place) : Bool :=
  match ps with
  | [] => true
  | p :: rest => p.char = ':' && atGap rest || inFlow && isFlowMark p.char

/-- Whether a colon stands before a mark in a flow collection, which is not allowed in a plain
scalar. -/
def isStrayColon (inFlow : Bool) : List Place → Bool
  | p :: q :: _ => inFlow && p.char = ':' && (isFlowMark q.char || q.char = '?')
  | _ => false

/-- The rest of a plain scalar behind a gap, the gap behind it, and the places behind that one.
Lines that continue it have to be indented to a column. -/
def plain? (inFlow : Bool) (column : Nat) (gap : Gap) :
    List Place → Option (List Char × Gap × List Place)
  | [] => some ([], gap, [])
  | p :: rest =>
    if isBreak p.char || isGapChar p.char then
      if p.char = '\t' && gap.hasBreak && p.column < column then none
      else plain? inFlow column (gap.add p.char) rest
    else if gap ≠ .none &&
        (!inFlow && p.column < column || isMarker (p :: rest) || p.char = '#') then
      some ([], gap, p :: rest)
    else if isStrayColon inFlow (p :: rest) then none
    else if endsPlain inFlow (p :: rest) then some ([], gap, p :: rest)
    else (plain? inFlow column .none rest).map (gap.continued p.char)

/-! ## Block scalars -/

/-- What happens to the line endings at the end of a block scalar. -/
inductive Chomping where
  /-- They are dropped. -/
  | strip
  /-- The first one is kept. -/
  | clip
  /-- All are kept. -/
  | keep
deriving DecidableEq, Repr

/-- The chomping and the indentation that the header of a block scalar gives. -/
structure BlockHeader where
  chomping : Chomping := .clip
  indentation : Option Nat := none
deriving DecidableEq, Repr

/-- Takes a character of a header; the indentation is not zero, and nothing is given twice. -/
def BlockHeader.add (h : BlockHeader) (c : Char) : Option BlockHeader :=
  if c = '+' || c = '-' then
    if h.chomping = .clip then some { h with chomping := if c = '+' then .keep else .strip }
    else none
  else if c.isDigit && c ≠ '0' && h.indentation.isNone then
    some { h with indentation := some (c.toNat - 48) }
  else none

/-- The header of a block scalar, and the places from the next line on. -/
def blockHeader? (ps : List Place) : Option (BlockHeader × List Place) := do
  let (marks, rest) := spanChars (fun c => c = '+' || c = '-' || c.isDigit) ps
  let header ← marks.foldlM BlockHeader.add {}
  let rest := rest.dropWhile (isGapChar ·.char)
  let rest := if startsWith '#' rest then rest.dropWhile (!isBreak ·.char) else rest
  match rest with
  | [] => some (header, [])
  | p :: rest => if isBreak p.char then some (header, rest) else none

/-- The line endings in front of the first line of a block scalar, the largest column that their
lines reach, and the places behind them.  With a column given, lines reach no further than it. -/
def leadingBreaks? (column : Option Nat) (reached : Nat) (breaks : List Char) :
    List Place → Option (Nat × List Char × List Place)
  | [] => some (reached, breaks, [])
  | p :: rest =>
    let before := column.all (p.column < ·)
    if p.char = ' ' && before then
      leadingBreaks? column (max reached (p.column + 1)) breaks rest
    else if p.char = '\t' && before then none
    else if isBreak p.char then leadingBreaks? column reached (breaks ++ [p.char]) rest
    else some (reached, breaks, p :: rest)

/-- The lines of a block scalar as they are read. -/
structure BlockLines where
  /-- The lines in reverse, without the ending of the last one. -/
  reversed : List Char
  /-- The ending of the last line. -/
  ending : Option Char
  /-- The endings of the empty lines behind it. -/
  empty : List Char
  /-- Whether the last line starts with a blank. -/
  startsBlank : Bool
deriving DecidableEq, Repr

namespace BlockLines

/-- Starts a line with its first character.  In a folded scalar the ending of the line before is
folded, unless one of the two lines starts with a blank. -/
def startLine (b : BlockLines) (literal : Bool) (c : Char) : BlockLines :=
  let folds := !literal && b.ending = some '\n' && !b.startsBlank && !isGapChar c
  let between :=
    if folds then (if b.empty.isEmpty then [' '] else b.empty)
    else b.ending.toList ++ b.empty
  ⟨c :: between.reverse ++ b.reversed, none, [], isGapChar c⟩

/-- The text of a block scalar after its last line. -/
def close (b : BlockLines) : Chomping → List Char
  | .strip => b.reversed.reverse
  | .clip => b.reversed.reverse ++ b.ending.toList
  | .keep => b.reversed.reverse ++ b.ending.toList ++ b.empty

end BlockLines

/-- The lines of a block scalar at a column, and the places behind them. -/
def blockLines? (literal : Bool) (column : Nat) (b : BlockLines) (inLine : Bool) :
    List Place → Option (BlockLines × List Place)
  | [] => some (b, [])
  | p :: rest =>
    if inLine then
      if isBreak p.char then
        blockLines? literal column { b with ending := some p.char } false rest
      else blockLines? literal column { b with reversed := p.char :: b.reversed } true rest
    else if p.char = ' ' && p.column < column then blockLines? literal column b false rest
    else if p.char = '\t' && p.column < column then none
    else if isBreak p.char then
      blockLines? literal column { b with empty := b.empty ++ [p.char] } false rest
    else if p.column = column then
      blockLines? literal column (b.startLine literal p.char) true rest
    else some (b, p :: rest)

/-- The text of a block scalar behind its mark, inside a block at an indentation, and the places
behind it. -/
def block? (literal : Bool) (indentation : Option Nat) (ps : List Place) :
    Option (List Char × List Place) := do
  let (header, rest) ← blockHeader? ps
  let given := header.indentation.map (indentation.getD 0 + ·)
  let (reached, breaks, rest) ← leadingBreaks? given 0 [] rest
  let least := (indentation.map (· + 1)).getD 0
  let column := given.getD (max (max reached least) 1)
  let (b, rest) ← blockLines? literal column ⟨[], none, breaks, false⟩ false rest
  return (b.close header.chomping, rest)

end Tinct.Yaml
