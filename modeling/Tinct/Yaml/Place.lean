import Tinct.Text.LineEnding

/-! # Places in a YAML text

Indentation matters in YAML, so a text is read as a list of places: its characters with their line
and column.  Line endings count as one place each, and a byte order mark takes a column like any
other character.

* `places?` is the list of places of a text whose characters are all readable;
* `isMarker` says that a line starts with one of the marks between documents. -/

namespace Tinct.Yaml

/-- A character with its line, its column, and the number of bytes in front of it. -/
structure Place where
  char : Char
  line : Nat
  column : Nat
  offset : Nat
deriving DecidableEq, Repr

/-- Whether a character can stand in a YAML text. -/
def isReadable (c : Char) : Bool :=
  let n := c.toNat
  c = '\t' || c = '\n' || c = '\r' || 0x20 ≤ n && n ≤ 0x7E || n = 0x85 ||
    0xA0 ≤ n && n ≤ 0xD7FF || 0xE000 ≤ n && n ≤ 0xFFFD || 0x10000 ≤ n

/-- A text with the line endings of one character each; all but the line and the paragraph separator
become line feeds. -/
def joinLineEndings (text : List Char) : List Char :=
  (joinReturnFeeds text).map fun c => if c = '\r' || c = '\x85' then '\n' else c

/-- Whether a character ends a line. -/
def isBreak (c : Char) : Bool := c = '\n' || c = '\u2028' || c = '\u2029'

/-- Whether a character is a space or a tab. -/
def isGapChar (c : Char) : Bool := c = ' ' || c = '\t'

/-- The places of characters, given those of the first one. -/
def placesFrom (line column offset : Nat) : List Char → List Place
  | [] => []
  | c :: rest =>
    ⟨c, line, column, offset⟩ ::
      if isBreak c then placesFrom (line + 1) 0 (offset + c.utf8Size) rest
      else placesFrom line (column + 1) (offset + c.utf8Size) rest

/-- The places of a text. -/
def places? (text : List Char) : Option (List Place) :=
  if text.all isReadable then some (placesFrom 0 0 0 (joinLineEndings text)) else none

/-- Whether a list of places starts with a given character. -/
def startsWith (c : Char) (ps : List Place) : Bool := ps.head?.any (·.char = c)

/-- Whether the text ends here or goes on with a line ending. -/
def atLineEnd : List Place → Bool
  | [] => true
  | p :: _ => isBreak p.char

/-- Whether the text ends here or goes on with a space, a tab or a line ending. -/
def atGap : List Place → Bool
  | [] => true
  | p :: _ => isBreak p.char || isGapChar p.char

/-- Whether a line starts here with three times the given character and a gap. -/
def isMarkerOf (c : Char) : List Place → Bool
  | p :: q :: r :: rest => p.column = 0 && p.char = c && q.char = c && r.char = c && atGap rest
  | _ => false

/-- Whether a line starts here with a mark between documents. -/
def isMarker (ps : List Place) : Bool := isMarkerOf '-' ps || isMarkerOf '.' ps

/-- Whether a character can stand in the names of anchors and directives. -/
def isNameChar (c : Char) : Bool := c.isAlphanum || c = '_' || c = '-'

/-- The characters of the longest run of a class, and the places behind it. -/
def spanChars (accepts : Char → Bool) (ps : List Place) : List Char × List Place :=
  ((ps.takeWhile (accepts ·.char)).map (·.char), ps.dropWhile (accepts ·.char))

end Tinct.Yaml
