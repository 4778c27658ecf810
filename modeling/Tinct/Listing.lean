import Tinct.Category

/-! # Fragments and listings

A lexer turns a source text into fragments: consecutive pieces of the text, each with its category.
A listing holds the same text line by line: every line is a list of tokens, and no token built from
fragments is empty or contains a line break.

* `Listing.Builder` takes fragments one at a time and can be finished after each of them;
* `Listing.ofFragments` builds the listing of a list of fragments;
* `Listing.source` gives the text back, without the final line break. -/

namespace Tinct

/-- A piece of a source text with its category. -/
structure Fragment where
  category : Category
  text : String
deriving DecidableEq, Repr

/-- A piece of one line with its category. -/
structure Token where
  content : String
  category : Category
deriving DecidableEq, Repr

/-- The tokens of one line. -/
abbrev Line := List Token

/-- The text of a line. -/
def Line.text (line : Line) : String := String.join (line.map (·.content))

/-- Lines of tokens. -/
structure Listing where
  lines : List Line
deriving DecidableEq, Repr

namespace Listing

/-- The number of tokens on all lines. -/
def tokenCount (l : Listing) : Nat := l.lines.flatten.length

/-- The texts of the lines, with a line break between any two. -/
def source (l : Listing) : String := "\n".intercalate (l.lines.map Line.text)

/-- A listing under construction: the lines that are complete and the tokens of the open line. -/
structure Builder where
  complete : Array Line
  current : Array Token
deriving DecidableEq, Repr

namespace Builder

/-- The builder that has seen no fragment. -/
def empty : Builder := ⟨#[], #[]⟩

/-- Adds a token to the open line, unless its text is empty. -/
def add (b : Builder) (category : Category) (piece : List Char) : Builder :=
  if piece.isEmpty then b
  else { b with current := b.current.push ⟨String.ofList piece, category⟩ }

/-- Completes the open line and opens the next one. -/
def breakLine (b : Builder) : Builder := ⟨b.complete.push b.current.toList, #[]⟩

/-- Adds the pieces of a fragment, with a line break between any two. -/
def addPieces (b : Builder) (category : Category) : List (List Char) → Builder
  | [] => b
  | [piece] => b.add category piece
  | piece :: pieces => ((b.add category piece).breakLine).addPieces category pieces

/-- Takes the next fragment, which is cut at its line breaks. -/
def push (b : Builder) (f : Fragment) : Builder :=
  b.addPieces f.category (f.text.toList.splitOn '\n')

/-- The lines taken so far; an open line counts if it has a token. -/
def finish (b : Builder) : Listing :=
  ⟨(if b.current.isEmpty then b else b.breakLine).complete.toList⟩

end Builder

/-- The listing of a list of fragments. -/
def ofFragments (fragments : List Fragment) : Listing :=
  (fragments.foldl Builder.push Builder.empty).finish

end Listing

end Tinct
