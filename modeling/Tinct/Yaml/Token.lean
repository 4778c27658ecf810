import Tinct.Yaml.Scalar

/-! # YAML tokens

A text is cut into tokens: marks, scalars, and the starts and ends of blocks, which follow from the
indentation.  A mapping key in a block need not be marked as one; that a scalar was a key shows only
at the colon behind it.  So the scanner remembers, for every open flow collection and for the block
around them, where such a key may have started, and inserts its token there later.

* `Scanner.step?` takes the next token;
* `Token.ofChars?` is the list of tokens of a text. -/

namespace Tinct.Yaml

/-- A token of a YAML text. -/
inductive Token where
  | versionDirective (major minor : Nat)
  | tagDirective (handle value : String)
  | documentStart
  | documentEnd
  | blockSequenceStart
  | blockMappingStart
  | blockEnd
  | flowSequenceStart
  | flowSequenceEnd
  | flowMappingStart
  | flowMappingEnd
  | blockEntry
  | flowEntry
  | key
  | value
  | alias (name : String)
  | anchor (name : String)
  | tag (handle suffix : String)
  | scalar (isPlain : Bool) (text : String)
deriving DecidableEq, Repr

/-- A place where a mapping key may have started. -/
structure KeyStart where
  place : Place
  /-- How many tokens were found before it. -/
  position : Nat
  /-- Whether only a key can stand there. -/
  isRequired : Bool
deriving DecidableEq, Repr

/-- What the scanner knows between two tokens. -/
structure Scanner where
  tokens : Array Token := #[]
  /-- The column of the innermost block. -/
  indentation : Option Nat := none
  /-- The columns of the blocks around it, the innermost first. -/
  outer : List (Option Nat) := []
  /-- The possible key in each open flow collection, the innermost first, and in the block. -/
  keys : List (Option KeyStart) := [none]
  /-- Whether a key can start here. -/
  allowsKey : Bool := true
deriving DecidableEq, Repr

namespace Scanner

/-- Whether a flow collection is open. -/
def inFlow (s : Scanner) : Bool := 1 < s.keys.length

/-- Adds a token. -/
def push (s : Scanner) (t : Token) : Scanner := { s with tokens := s.tokens.push t }

/-- Says whether a key can start at the next place. -/
def allow (s : Scanner) (allowsKey : Bool) : Scanner := { s with allowsKey := allowsKey }

/-- Ends the blocks that lie deeper than a column, or all of them. -/
def endBlocks (s : Scanner) (column : Option Nat) : Scanner :=
  if s.inFlow then s else go s.indentation s.outer s
where
  /-- Ends the innermost block while it lies too deep. -/
  go (indentation : Option Nat) (outer : List (Option Nat)) (s : Scanner) : Scanner :=
    match indentation, outer with
    | some i, next :: outer =>
      if column.all (· < i) then go next outer (s.push .blockEnd)
      else { s with indentation := some i, outer := next :: outer }
    | indentation, outer => { s with indentation := indentation, outer := outer }

/-- Starts a block at a column that lies deeper than the innermost block, with its token at the
given position. -/
def startBlock (s : Scanner) (column position : Nat) (t : Token) : Scanner :=
  if s.inFlow || s.indentation.any (column ≤ ·) then s
  else
    { s with
      tokens := s.tokens.insertIdxIfInBounds position t
      indentation := some column
      outer := s.indentation :: s.outer }

/-- Gives up the possible key, which must not be a required one. -/
def dropKey? (s : Scanner) : Option Scanner :=
  match s.keys with
  | some k :: outer => if k.isRequired then none else some { s with keys := none :: outer }
  | _ => some s

/-- Remembers that a key may start at a place. -/
def saveKey? (s : Scanner) (p : Place) : Option Scanner :=
  if s.allowsKey then do
    let required := !s.inFlow && s.indentation = some p.column
    let s ← s.dropKey?
    return { s with keys := some ⟨p, s.tokens.size, required⟩ :: s.keys.tail }
  else some s

/-- The possible key in front of a place.  A key has to be on the same line and not longer than 1024
bytes; there is no result if a required key is not. -/
def key? (s : Scanner) (p : Place) : Option (Option KeyStart) :=
  match s.keys with
  | some k :: _ =>
    if k.place.line < p.line || k.place.offset + 1024 < p.offset then
      if k.isRequired then none else some none
    else some (some k)
  | _ => some none

/-! ## Marks -/

/-- Takes a bracket or brace that opens a flow collection. -/
def openFlow? (s : Scanner) (p : Place) (t : Token) : Option Scanner := do
  let s ← s.saveKey? p
  return ({ s with keys := none :: s.keys }.allow true).push t

/-- Takes a bracket or brace that closes a flow collection. -/
def closeFlow? (s : Scanner) (t : Token) : Option Scanner := do
  let s ← s.dropKey?
  let keys := if s.inFlow then s.keys.tail else s.keys
  return ({ s with keys := keys }.allow false).push t

/-- Takes a comma in a flow collection. -/
def comma? (s : Scanner) : Option Scanner := do return ((← s.dropKey?).allow true).push .flowEntry

/-- Takes a dash in front of an item of a block. -/
def dash? (s : Scanner) (p : Place) : Option Scanner := do
  let s ←
    if s.inFlow then some s
    else if s.allowsKey then some (s.startBlock p.column s.tokens.size .blockSequenceStart)
    else none
  return ((← s.dropKey?).allow true).push .blockEntry

/-- Takes a question mark in front of a key. -/
def keyMark? (s : Scanner) (p : Place) : Option Scanner := do
  let s ←
    if s.inFlow then some s
    else if s.allowsKey then some (s.startBlock p.column s.tokens.size .blockMappingStart)
    else none
  return ((← s.dropKey?).allow (!s.inFlow)).push .key

/-- Takes a colon in front of a value. -/
def valueMark? (s : Scanner) (p : Place) : Option Scanner := do
  match ← s.key? p with
  | some k =>
    let s := { s with tokens := s.tokens.insertIdxIfInBounds k.position .key }
    let s := s.startBlock k.place.column k.position .blockMappingStart
    return ({ s with keys := none :: s.keys.tail }.allow false).push .value
  | none =>
    let s ←
      if s.inFlow then some s
      else if s.allowsKey then some (s.startBlock p.column s.tokens.size .blockMappingStart)
      else none
    return ({ s with keys := none :: s.keys.tail }.allow (!s.inFlow)).push .value

/-- Takes a mark between documents. -/
def marker? (s : Scanner) (t : Token) : Option Scanner := do
  return ((← (s.endBlocks none).dropKey?).allow false).push t

end Scanner

/-! ## Names, tags and directives -/

/-- The name of an anchor, and the places behind it. -/
def anchorName? (ps : List Place) : Option (String × List Place) :=
  let (name, rest) := spanChars isNameChar ps
  let ends := atGap rest || rest.head?.any fun p => "?:,]\x7d%@\x60".toList.contains p.char
  if name.isEmpty || !ends then none else some (String.ofList name, rest)

/-- The handle of a tag, with its exclamation marks, and the places behind it.  That of a directive
has to be complete. -/
def tagHandle? (inDirective : Bool) : List Place → Option (List Char × List Place)
  | [] => none
  | p :: rest =>
    if p.char = '!' then
      let (name, rest) := spanChars isNameChar rest
      if startsWith '!' rest then some ('!' :: name ++ ['!'], rest.tail)
      else if inDirective && !name.isEmpty then none
      else some ('!' :: name, rest)
    else none

/-- Whether a character can stand in a tag; brackets and commas only in a tag that is written in
full. -/
def isTagChar (full : Bool) (c : Char) : Bool :=
  isNameChar c || ";/?:@&=+$.%!~*'()".toList.contains c || full && ",[]".toList.contains c

/-- How many bytes a character takes that starts with a byte. -/
def utf8Width? (byte : Nat) : Option Nat :=
  if byte < 0x80 then some 1
  else if 0xC0 ≤ byte && byte < 0xE0 then some 2
  else if 0xE0 ≤ byte && byte < 0xF0 then some 3
  else if 0xF0 ≤ byte && byte < 0xF8 then some 4
  else none

/-- The bytes that a text stands for in which a percent sign and two hexadecimal digits name a byte;
all bytes of a character have to be named together. -/
def tagBytes? (missing : Nat) : List Char → Option (List Nat)
  | [] => if missing = 0 then some [] else none
  | '%' :: a :: b :: rest => do
    let byte := (← hexDigit? a) * 16 + (← hexDigit? b)
    if missing = 0 then return byte :: (← tagBytes? ((← utf8Width? byte) - 1) rest)
    else if 0x80 ≤ byte && byte < 0xC0 then return byte :: (← tagBytes? (missing - 1) rest)
    else none
  | '%' :: _ => none
  | c :: rest => if missing = 0 then (tagBytes? 0 rest).map (c.toNat :: ·) else none

/-- The longest run of tag characters, and the places behind it. -/
def tagText? (full : Bool) (ps : List Place) : Option (List Char × List Place) := do
  let (text, rest) := spanChars (isTagChar full) ps
  return ((← tagBytes? 0 text).map Char.ofNat, rest)

/-- The text of a tag up to its first null character, at which it ends. -/
def tagName (text : List Char) : String := String.ofList (text.takeWhile (· ≠ '\x00'))

/-- A tag behind its exclamation mark, as its handle and suffix, and the places behind it. -/
def tag? (inFlow : Bool) (ps : List Place) : Option (Token × List Place) := do
  let (handle, suffix, rest) ←
    match ps with
    | _ :: q :: rest =>
      if q.char = '<' then do
        let (text, rest) ← tagText? true rest
        if text.isEmpty || !startsWith '>' rest then none else some ([], text, rest.tail)
      else short? ps
    | ps => short? ps
  if atGap rest || inFlow && startsWith ',' rest then
    some (.tag (String.ofList handle) (tagName suffix), rest)
  else none
where
  /-- A tag that is not written in full. -/
  short? (ps : List Place) : Option (List Char × List Char × List Place) := do
    let (handle, rest) ← tagHandle? false ps
    let (text, rest) ← tagText? false rest
    if 1 < handle.length && handle.getLast? = some '!' then
      if text.isEmpty then none else some (handle, text, rest)
    else if tagName (handle.drop 1 ++ text) = "" then some ([], ['!'], rest)
    else some (['!'], handle.drop 1 ++ text, rest)

/-- A number of at most nine digits, and the places behind it. -/
def versionNumber? (ps : List Place) : Option (Nat × List Place) :=
  let (digits, rest) := spanChars Char.isDigit ps
  if digits.isEmpty || 9 < digits.length then none
  else some (decimalValue digits, rest)

/-- The places behind spaces and tabs. -/
def skipGap (ps : List Place) : List Place := ps.dropWhile (isGapChar ·.char)

/-- A directive behind its percent sign, and the places from the next line on. -/
def directive? (ps : List Place) : Option (Token × List Place) := do
  let (name, rest) := spanChars isNameChar ps
  if !atGap rest then none
  let rest := skipGap rest
  let (t, rest) ←
    if name = ['Y', 'A', 'M', 'L'] then do
      let (major, rest) ← versionNumber? rest
      if !startsWith '.' rest then none
      let (minor, rest) ← versionNumber? rest.tail
      some (Token.versionDirective major minor, rest)
    else if name = ['T', 'A', 'G'] then do
      let (handle, rest) ← tagHandle? true rest
      if !(rest.head?.any (isGapChar ·.char)) then none
      let (text, rest) ← tagText? true (skipGap rest)
      if text.isEmpty || !atGap rest then none
      some (Token.tagDirective (String.ofList handle) (tagName text), rest)
    else none
  let rest := skipGap rest
  let rest := if startsWith '#' rest then rest.dropWhile (!isBreak ·.char) else rest
  if atLineEnd rest then some (t, rest.tail) else none

/-! ## The scanner -/

namespace Scanner

/-- Passes over blanks, comments and line endings in front of a token.  In a block, a tab counts as
a blank only where no key can start, and a key can start on each new line.  Each line may start with
a byte order mark. -/
def skipBlanks (s : Scanner) (inComment : Bool) : List Place → Scanner × List Place
  | [] => (s, [])
  | p :: rest =>
    if isBreak p.char then (s.allow (!s.inFlow || s.allowsKey)).skipBlanks false rest
    else if inComment || p.char = ' ' || p.char = '\t' && (s.inFlow || !s.allowsKey) ||
        p.char = '\ufeff' && p.column = 0 then
      s.skipBlanks inComment rest
    else if p.char = '#' then s.skipBlanks true rest
    else (s, p :: rest)

/-- Takes a scalar in quotes behind its opening quote. -/
def quoted? (s : Scanner) (p : Place) (rest : List Place) : Option (Scanner × List Place) := do
  let s ← s.saveKey? p
  let (text, rest) ←
    if p.char = '\'' then singleQuoted? .none rest else doubleQuoted? .none rest
  return ((s.allow false).push (.scalar false (String.ofList text)), rest)

/-- Takes a block scalar behind its mark. -/
def block? (s : Scanner) (literal : Bool) (rest : List Place) : Option (Scanner × List Place) := do
  let s ← s.dropKey?
  let (text, rest) ← Yaml.block? literal s.indentation rest
  return ((s.allow true).push (.scalar false (String.ofList text)), rest)

/-- Takes a plain scalar.  A key can start behind it if it ends a line. -/
def plain? (s : Scanner) (p : Place) (rest : List Place) : Option (Scanner × List Place) := do
  let s ← s.saveKey? p
  let column := (s.indentation.map (· + 1)).getD 0
  let (text, gap, rest) ← Yaml.plain? s.inFlow column .none rest
  return ((s.allow gap.hasBreak).push (.scalar true (String.ofList (p.char :: text))), rest)

/-- Whether a plain scalar can start with a character in front of the given places. -/
def startsPlain (s : Scanner) (c : Char) (rest : List Place) : Bool :=
  !" \t-?:,[]\x7b\x7d#&*!|>'\"%@\x60".toList.contains c ||
    c = '-' && !rest.head?.any (isGapChar ·.char) ||
    !s.inFlow && (c = '?' || c = ':') && !atGap rest

/-- Takes the token that starts at a place; blocks that end before it are closed already. -/
def token? (s : Scanner) (p : Place) (rest : List Place) : Option (Scanner × List Place) :=
  let marks (s : Option Scanner) := s.map (·, rest)
  if p.column = 0 && p.char = '%' then do
    let s ← (s.endBlocks none).dropKey?
    let (t, rest) ← directive? rest
    return ((s.allow false).push t, rest)
  else if isMarkerOf '-' (p :: rest) then (s.marker? .documentStart).map (·, rest.drop 2)
  else if isMarkerOf '.' (p :: rest) then (s.marker? .documentEnd).map (·, rest.drop 2)
  else if p.char = '[' then marks (s.openFlow? p .flowSequenceStart)
  else if p.char = '\x7b' then marks (s.openFlow? p .flowMappingStart)
  else if p.char = ']' then marks (s.closeFlow? .flowSequenceEnd)
  else if p.char = '\x7d' then marks (s.closeFlow? .flowMappingEnd)
  else if p.char = ',' then marks s.comma?
  else if p.char = '-' && atGap rest then marks (s.dash? p)
  else if p.char = '?' && (s.inFlow || atGap rest) then marks (s.keyMark? p)
  else if p.char = ':' && (s.inFlow || atGap rest) then marks (s.valueMark? p)
  else if p.char = '*' || p.char = '&' then do
    let s ← s.saveKey? p
    let (name, rest) ← anchorName? rest
    return ((s.allow false).push (if p.char = '*' then .alias name else .anchor name), rest)
  else if p.char = '!' then do
    let s ← s.saveKey? p
    let (t, rest) ← tag? s.inFlow (p :: rest)
    return ((s.allow false).push t, rest)
  else if p.char = '|' && !s.inFlow then s.block? true rest
  else if p.char = '>' && !s.inFlow then s.block? false rest
  else if p.char = '\'' || p.char = '"' then s.quoted? p rest
  else if s.startsPlain p.char rest then s.plain? p rest
  else none

/-- The tokens of the rest of a text, after those that were found already.  Every token takes at
least one place. -/
def run? (s : Scanner) (ps : List Place) : Option (List Token) :=
  match s.skipBlanks false ps with
  | (s, []) => ((s.endBlocks none).dropKey?).map (·.tokens.toList)
  | (s, p :: rest) =>
    match (s.endBlocks (some p.column)).token? p rest with
    | none => none
    | some (s, behind) => if behind.length < ps.length then run? s behind else none
termination_by ps.length

end Scanner

/-- The tokens of a text. -/
def Token.ofChars? (text : List Char) : Option (List Token) := do
  ({} : Scanner).run? (← places? text)

end Tinct.Yaml
