import Tinct.Lexer.Score
import Tinct.Listing

/-! # Lexers

A lexer cuts a source text into fragments and can say how confident it is that a text is in its
language.  It is known under its name and its aliases, and claims the files whose names match one of
its globs. -/

namespace Tinct

/-- A lexer with what it is known by. -/
structure Lexer where
  name : String
  aliases : List String := []
  /-- Globs for the names of files in the language. -/
  filenames : List String := []
  /-- The confidence that a text is in the language. -/
  confidence : String → Score := fun _ => .zero
  /-- The fragments of a text, in order. -/
  fragments : String → List Fragment

end Tinct
