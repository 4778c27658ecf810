import Tinct.Lexers.Builtin
import Tinct.Listing.Written
import Tinct.Settings
import Tinct.Theme.Builtin
import Tinct.Theme.Written

/-! # Sessions

A session has settings, lexers and themes, and turns source texts and files into listings of tokens.
The lexer is named by the user, or found by the name of the file and the text; where none is found,
the text is taken as plain text.

* `Session.tokenize` is the listing of a source text;
* `open?`, `load` and `write` are the operations on files. -/

namespace Tinct

/-- How a lexer is chosen. -/
inductive LexerChoice where
  /-- By its name or an alias. -/
  | named (name : String)
  /-- By the path of the source file, and else by the text. -/
  | forFile (path : String)
  /-- By the text. -/
  | guess
deriving DecidableEq, Repr

/-- The choice for a file, whose lexer may be named. -/
def LexerChoice.ofName? (path : String) (name : Option String) : LexerChoice :=
  match name with
  | some name => .named name
  | none => .forFile path

/-- What turns source texts into listings and names into palettes. -/
structure Session where
  settings : Settings := {}
  lexers : Lexers := .builtin
  themes : ThemeLibrary := .builtin

namespace Session

/-- The lexer that a choice leads to. -/
def find (s : Session) (source : String) : LexerChoice → Except Failure Lexer
  | .named name => s.lexers.find name
  | .forFile path =>
    match s.lexers.forFile path with
    | .ok lexer => .ok lexer
    | .error _ => s.lexers.guess source
  | .guess => s.lexers.guess source

/-- The lexer for a source text.  Only a lexer that is named can be missing; otherwise plain text is
assumed. -/
def select (s : Session) (source : String) (choice : LexerChoice) : Except Failure Lexer :=
  match choice, s.find source choice with
  | .named _, found => found
  | _, .ok lexer => .ok lexer
  | _, .error _ => .ok .plainText

/-- The listing of a source text, with the lexer for it. -/
def tokenizeWith (s : Session) (lexer : Lexer) (source : String) : Listing :=
  .ofFragments (lexer.fragments (s.settings.preparation.apply source))

/-- The listing of a source text. -/
def tokenize (s : Session) (source : String) (choice : LexerChoice) : Except Failure Listing :=
  (s.select source choice).map fun lexer => s.tokenizeWith lexer source

/-- A result as text, in the layout of the settings. -/
def print (s : Session) (v : Json) : String :=
  v.print (if s.settings.pretty then .pretty else .compact)

/-- The path of the file for the tokens of a source file. -/
def tokenFilePath (s : Session) (path : String) : String := path ++ s.settings.tokenFileSuffix

/-- The reports on the choice of a lexer for a source text. -/
def selectReports (s : Session) (source : String) (choice : LexerChoice) : List LogEntry :=
  match choice, s.find source choice with
  | .named _, _ => []
  | _, .ok _ => []
  | _, .error e =>
    [⟨.warn, "Could not determine language, using plain text", [("error", e.message)]⟩]

/-- The reports on the listing of a source text. -/
def tokenizeReports (s : Session) (source : String) (choice : LexerChoice) : List LogEntry :=
  match s.select source choice with
  | .error _ => []
  | .ok lexer =>
    s.selectReports source choice ++
      [⟨.debug, "Tokenizing",
        [("lexer", quoted lexer.name), ("bytes", toString source.utf8ByteSize)]⟩]

/-! ## Files -/

section Files

variable {m : Type → Type} [Monad m] [Workspace m]

/-- Adds the themes of directories, up to the first that cannot be loaded. -/
def loadThemes (l : ThemeLibrary) : List String → m (Except Failure ThemeLibrary)
  | [] => return .ok l
  | dir :: rest => do
    match ← l.load Theme.parse? dir with
    | (_, .error e) => return .error e
    | (l, .ok n) =>
      Workspace.report
        ⟨.info, "Theme directory scanned", [("themes.dir", dir), ("themes.loaded", toString n)]⟩
      loadThemes l rest

/-- A session with the built-in lexers and themes, and with the themes of the directories that the
settings name. -/
def open? (settings : Settings) : m (Except Failure Session) := do
  return (← loadThemes .builtin settings.themeDirs).map fun themes => { settings, themes }

/-- The listing of a file, whose lexer may be named. -/
def load (s : Session) (path : String) (lexer : Option String) : m (Except Failure Listing) := do
  match ← Workspace.readText path with
  | .error e => return .error (.file path e)
  | .ok source =>
    let choice := LexerChoice.ofName? path lexer
    (s.tokenizeReports source choice).forM Workspace.report
    return s.tokenize source choice

/-- Writes the listing of a file beside it, and gives the path of the file of the tokens. -/
def write (s : Session) (path : String) (lexer : Option String) : m (Except Failure String) := do
  match ← s.load path lexer with
  | .error e => return .error e
  | .ok listing =>
    let target := s.tokenFilePath path
    match ← Workspace.writeText target (s.print listing.toJson) with
    | .error e => return .error (.file target e)
    | .ok _ =>
      Workspace.report
        ⟨.info, "Tokens written",
          [("output", target), ("lines", toString listing.lines.length)]⟩
      return .ok target

end Files

end Session

end Tinct
