import Tinct.Lexer

/-! # The plain text lexer

The whole text is one fragment. -/

namespace Tinct.Lexer

/-- The lexer for texts in no particular language. -/
def plainText : Lexer where
  name := "text"
  aliases := ["plain", "txt"]
  filenames := ["*.txt"]
  fragments source := if source = "" then [] else [⟨.ofKey "Text", source⟩]

end Tinct.Lexer
