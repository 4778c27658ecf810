import Tinct.CommandLine.Arguments
import Tinct.Session
import Tinct.Settings.Sources
import Tinct.Workspace.Filtered

/-! # The command line

The commands of the program: writing or printing the tokens of a file, printing a theme, and listing
themes and lexers.  Settings come from `hilite.toml` and from a file given by an option.

* `parse` reads the arguments;
* `run` carries out what they ask for. -/

namespace Tinct.CommandLine

/-- What the user asks for. -/
inductive Command where
  | tokenize (path : String) (lexer : Option String) (toStdout : Bool)
  | theme (name : String)
  | listThemes
  | listLexers
deriving DecidableEq, Repr

/-- A command with the options that all commands share. -/
structure Invocation where
  config : Option String
  verbosity : Nat
  command : Command
deriving DecidableEq, Repr

/-! ## Reading arguments -/

/-- The options that can be given on both levels. -/
def shared : List Flag := [.config, .verbose, .help]

/-- The arguments up to the name of a command. -/
def top : Level where
  flags := .version :: shared
  commands := ["tokenize", "theme", "list-themes", "list-lexers", "help"]

/-- The arguments of a command. -/
def levelOf (name : String) : Level :=
  match name with
  | "tokenize" => ⟨.lexer :: .stdout :: shared, 1, []⟩
  | "theme" => ⟨shared, 1, []⟩
  | _ => ⟨shared, 0, []⟩

/-- The command of a name with what has been given for it; operands may be missing. -/
def command? (name : String) (g : Given) : Option Command :=
  match name, g.operands with
  | "tokenize", [path] => some (.tokenize path (g.value? .lexer) (g.has .stdout))
  | "theme", [theme] => some (.theme theme)
  | "list-themes", [] => some .listThemes
  | "list-lexers", [] => some .listLexers
  | _, _ => none

/-- What arguments ask for.  An option that is given for the command wins over the same one in front
of it. -/
def parse (args : List String) : Except Stop Invocation := do
  match ← top.read args with
  | (_, none) => .error .usage
  | (_, some ("help", topics)) =>
    if topics.length ≤ 1 && topics.all top.commands.contains then .error .help else .error .usage
  | (g, some (name, rest)) =>
    let (own, _) ← (levelOf name).read rest
    match command? name own with
    | none => .error .usage
    | some command =>
      let verbosity := if own.has .verbose then own.count .verbose else g.count .verbose
      return ⟨(own.value? .config).or (g.value? .config), verbosity, command⟩

/-! ## Results -/

/-- What a program leaves behind: its exit code, and what it has printed. -/
structure Outcome where
  exit : Nat
  stdout : String
  stderr : String
deriving DecidableEq, Repr

namespace Outcome

/-- A success with its output. -/
def success (stdout : String) : Outcome := ⟨0, stdout, ""⟩

/-- The message for a failure.  One that ends before the details of a reader is not closed by a line
ending. -/
def messageOf (e : Failure) : String :=
  "Error: " ++ e.message ++
    match e with
    | .badTheme _ => ""
    | .settings .badDocument => ""
    | _ => "\n"

/-- A failure with its message. -/
def failure (e : Failure) : Outcome := ⟨1, "", messageOf e⟩

/-- A failure of a command; where no lexer suits, all of them are listed. -/
def failureIn (s : Session) (e : Failure) : Outcome :=
  match e with
  | .noLexer _ =>
    ⟨1, "", messageOf e ++ "\nAvailable lexers:\n" ++
      String.join (s.lexers.names.map fun name => "  " ++ name ++ "\n")⟩
  | e => failure e

/-- The outcome of a command that may fail. -/
def ofExcept {α : Type} (s : Session) (print : α → String) : Except Failure α → Outcome
  | .ok a => success (print a ++ "\n")
  | .error e => failureIn s e

/-- How the program is used. -/
def help : String :=
  "Usage: hilite [OPTIONS] <COMMAND>\n\n" ++
  "Commands:\n" ++
  "  tokenize <PATH>  Write the tokens of a file beside it\n" ++
  "  theme <NAME>     Print a theme\n" ++
  "  list-themes      List the themes\n" ++
  "  list-lexers      List the lexers\n\n" ++
  "Options:\n" ++
  "  -c, --config <FILE>  Read settings from a file\n" ++
  "  -v, --verbose        Report more\n" ++
  "  -h, --help           Print this help\n" ++
  "  -V, --version        Print the version\n\n" ++
  "Options of tokenize:\n" ++
  "  -l, --lexer <NAME>  Use the lexer of this name or alias\n" ++
  "      --stdout        Print the tokens\n"

/-- The outcome where arguments ask for no command. -/
def ofStop : Stop → Outcome
  | .usage => ⟨2, "", ""⟩
  | .help => success help
  | .version => success "hilite 0.1.0\n"

end Outcome

/-! ## Commands -/

/-- The least important level of reports that are shown. -/
def level (verbosity : Nat) : LogLevel :=
  match verbosity with
  | 0 => .warn
  | 1 => .info
  | _ => .debug

/-- The sources of the settings. -/
def sources (config : Option String) : Sources :=
  let s := ({} : Sources).withOptionalFile "hilite.toml"
  match config with
  | some path => s.withFile path
  | none => s

/-- The list of themes. -/
def themeList (l : ThemeLibrary) : String :=
  "Available themes:\n\n" ++ String.join (l.names.map fun name => "  " ++ name ++ "\n")

/-- A line of names, unless there are none. -/
def nameLine (title : String) (names : List String) : String :=
  if names.isEmpty then "" else title ++ ", ".intercalate names ++ "\n"

/-- The list of lexers that can be found by their names. -/
def lexerList (ls : Lexers) : String :=
  "Available lexers:\n\n" ++ String.join (ls.names.map fun name =>
    match ls.find name with
    | .error _ => ""
    | .ok lexer =>
      "  " ++ name ++ "\n" ++ nameLine "    aliases: " lexer.aliases ++
        nameLine "    files:   " lexer.filenames ++ "\n")

section Running

variable {m : Type → Type} [Monad m] [Workspace m]

/-- Carries out a command. -/
def perform (s : Session) : Command → m Outcome
  | .tokenize path lexer true => do
    return .ofExcept s (fun (l : Listing) => s.print l.toJson) (← s.load path lexer)
  | .tokenize path lexer false => do return .ofExcept s id (← s.write path lexer)
  | .theme name =>
    return .ofExcept s (fun (p : Palette) => s.print p.toJson) (s.themes.palette name)
  | .listThemes => return .success (themeList s.themes)
  | .listLexers => return .success (lexerList s.lexers)

/-- Opens a session with the settings of the sources and carries out a command. -/
def execute (i : Invocation) : m Outcome := do
  match ← (sources i.config).load with
  | .error e => return .failure (.settings e)
  | .ok settings =>
    match ← Session.open? settings with
    | .error e => return .failure e
    | .ok s => perform s i.command

/-- Runs the program with arguments. -/
def run (args : List String) : m Outcome :=
  match parse args with
  | .error stop => return .ofStop stop
  | .ok i => (execute i : ReaderT LogLevel m Outcome).run (level i.verbosity)

end Running

end Tinct.CommandLine
