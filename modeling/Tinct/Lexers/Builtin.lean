import Tinct.Lexer.JsonText
import Tinct.Lexer.PlainText
import Tinct.Lexer.Python
import Tinct.Lexers

/-! # The built-in lexers -/

namespace Tinct

/-- The collection of the built-in lexers. -/
def Lexers.builtin : Lexers :=
  [Lexer.plainText, Lexer.python, Lexer.json].foldl Lexers.register .empty

end Tinct
