import Tinct.Text.LineEnding

/-! # Preparation of a source text

Before a lexer sees a source text, its line endings, outer line breaks and tabs can be brought into
one form.  The four steps are independent settings and run in a fixed order: line endings are
unified, outer line breaks dropped, tabs expanded, and a final line break added. -/

namespace Tinct

/-- Which steps prepare a source text. -/
structure Preparation where
  /-- Writes every line ending as a line feed. -/
  normalizeLineEndings : Bool := true
  /-- Drops the line feeds at both ends. -/
  stripNewlines : Bool := true
  /-- Ends the text in a line feed. -/
  ensureTrailingNewline : Bool := true
  /-- The number of spaces that replace a tab, zero keeping the tabs. -/
  tabSize : Nat := 0
deriving DecidableEq, Repr

namespace Preparation

/-- Writes every line ending, of one or two characters, as a line feed. -/
def unifyLineEndings (text : List Char) : List Char :=
  (joinReturnFeeds text).map fun c => if c = '\r' then '\n' else c

/-- Drops the line feeds at both ends. -/
def trimNewlines (text : List Char) : List Char :=
  ((text.dropWhile (· = '\n')).reverse.dropWhile (· = '\n')).reverse

/-- Replaces each tab by a number of spaces. -/
def expandTabs (size : Nat) (text : List Char) : List Char :=
  text.flatMap fun c => if c = '\t' then List.replicate size ' ' else [c]

/-- Adds a line feed to a text that does not end in one. -/
def endLine (text : List Char) : List Char :=
  if text.getLast? = some '\n' then text else text ++ ['\n']

/-- The steps on characters, in their order. -/
def applyChars (p : Preparation) (text : List Char) : List Char :=
  let text := if p.normalizeLineEndings then unifyLineEndings text else text
  let text := if p.stripNewlines then trimNewlines text else text
  let text := if p.tabSize = 0 then text else expandTabs p.tabSize text
  if p.ensureTrailingNewline then endLine text else text

/-- The prepared form of a source text. -/
def apply (p : Preparation) (source : String) : String :=
  String.ofList (p.applyChars source.toList)

end Preparation

end Tinct
