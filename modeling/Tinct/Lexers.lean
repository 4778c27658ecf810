import Tinct.Failure
import Tinct.Lexer
import Tinct.Lexer.Glob
import Tinct.Path
import Tinct.SortedMap

/-! # Collections of lexers

Lexers are kept by name.  A lexer can be asked for by name or alias, by the name of a file, or by a
text in its language; where several suit, the one whose name comes first is taken. -/

namespace Tinct

/-- The known lexers by name. -/
structure Lexers where
  byName : SortedMap String Lexer

namespace Lexers

/-- The collection without lexers. -/
def empty : Lexers := ⟨.empty⟩

/-- Adds a lexer, in place of the one that had its name. -/
def register (ls : Lexers) (lexer : Lexer) : Lexers := ⟨ls.byName.insert lexer.name lexer⟩

/-- The names of the lexers in order. -/
def names (ls : Lexers) : List String := ls.byName.keys

/-- A text with the capital letters of ASCII made small. -/
def smallLetters (name : String) : String := String.ofList (name.toList.map Char.toLower)

/-- The lexer of a name or alias; names go before aliases and are asked for in small letters. -/
def find (ls : Lexers) (name : String) : Except Failure Lexer :=
  let wanted := smallLetters name
  match ls.byName.find? wanted with
  | some lexer => .ok lexer
  | none =>
    match ls.byName.values.find? (·.aliases.contains wanted) with
    | some lexer => .ok lexer
    | none => .error (.noLexer name)

/-- Whether a name or alias is known. -/
def knows (ls : Lexers) (name : String) : Bool := (ls.find name).isOk

/-- The first lexer with a glob for the last part of a path. -/
def forFile (ls : Lexers) (path : String) : Except Failure Lexer :=
  let name := (Path.fileName? path).getD ""
  match ls.byName.values.find? (·.filenames.any (Glob.describes · name)) with
  | some lexer => .ok lexer
  | none => .error (.noLexer path)

/-- The lexer with the higher confidence, which has to be above zero; the first of equals. -/
def moreConfident (source : String) (best : Option (Lexer × Score)) (lexer : Lexer) :
    Option (Lexer × Score) :=
  let score := lexer.confidence source
  if ((best.map (·.2)).getD .zero) < score then some (lexer, score) else best

/-- The lexer that is most confident about a text. -/
def guess (ls : Lexers) (source : String) : Except Failure Lexer :=
  match ls.byName.values.foldl (moreConfident source) none with
  | some (lexer, _) => .ok lexer
  | none => .error (.noLexer "<source text>")

end Lexers

end Tinct
