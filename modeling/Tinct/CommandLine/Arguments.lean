/-! # Arguments of commands

Arguments are read on two levels: first the options of the program up to the name of a command, then
the options and operands of that command.  An option is a dash and a letter, or two dashes and a
word; several letters can share a dash.  Its value stands in the same argument or in the next one.

* `Level.read` reads the arguments of a level, one at a time. -/

namespace Tinct.CommandLine

/-- The options of the program. -/
inductive Flag where
  | config
  | verbose
  | lexer
  | stdout
  | help
  | version
deriving DecidableEq, Repr

namespace Flag

/-- Whether an option has a value. -/
def takesValue : Flag → Bool
  | config => true
  | lexer => true
  | _ => false

/-- Whether an option may be given several times. -/
def mayRepeat : Flag → Bool
  | verbose => true
  | _ => false

/-- The word of an option. -/
def word : Flag → String
  | config => "config"
  | verbose => "verbose"
  | lexer => "lexer"
  | stdout => "stdout"
  | help => "help"
  | version => "version"

/-- The letter of an option. -/
def letter? : Flag → Option Char
  | config => some 'c'
  | verbose => some 'v'
  | lexer => some 'l'
  | stdout => none
  | help => some 'h'
  | version => some 'V'

end Flag

/-- Why reading arguments ends early. -/
inductive Stop where
  /-- The arguments are wrong. -/
  | usage
  /-- The user asks for help. -/
  | help
  /-- The user asks for the version. -/
  | version
deriving DecidableEq, Repr

/-- What has been given on a level: options with their values, and operands. -/
structure Given where
  flags : List (Flag × String) := []
  operands : List String := []
deriving DecidableEq, Repr

namespace Given

/-- Whether an option has been given. -/
def has (g : Given) (f : Flag) : Bool := (g.flags.lookup f).isSome

/-- The value that an option has been given. -/
def value? (g : Given) (f : Flag) : Option String := g.flags.lookup f

/-- How often an option has been given. -/
def count (g : Given) (f : Flag) : Nat := (g.flags.filter (·.1 = f)).length

/-- Takes an option.  Help and version end the reading. -/
def add (g : Given) (f : Flag) (value : String) : Except Stop Given :=
  match f with
  | .help => .error .help
  | .version => .error .version
  | f =>
    if g.has f && !f.mayRepeat then .error .usage
    else .ok { g with flags := g.flags ++ [(f, value)] }

end Given

/-- What can be given on a level. -/
structure Level where
  flags : List Flag
  /-- How many operands there are. -/
  operands : Nat := 0
  /-- The names of commands, which end the level. -/
  commands : List String := []
deriving DecidableEq, Repr

namespace Level

/-- Takes an operand, if there may be more of them. -/
def addOperand (l : Level) (g : Given) (operand : String) : Except Stop Given :=
  if g.operands.length < l.operands then .ok { g with operands := g.operands ++ [operand] }
  else .error .usage

/-- Takes an option with a word, and what stands behind an equals sign, if there is one.  The result
also has the option whose value is still to come. -/
def addWord (l : Level) (g : Given) (word : String) (value : Option String) :
    Except Stop (Given × Option Flag) :=
  match l.flags.find? (·.word = word), value with
  | none, _ => .error .usage
  | some f, none => if f.takesValue then .ok (g, some f) else (g.add f "").map (·, none)
  | some f, some value => if f.takesValue then (g.add f value).map (·, none) else .error .usage

/-- Takes options with letters.  Behind a letter whose option has a value, the rest of the argument
is that value, without an equals sign in front. -/
def addLetters (l : Level) (g : Given) : List Char → Except Stop (Given × Option Flag)
  | [] => .ok (g, none)
  | c :: rest =>
    match l.flags.find? (·.letter? = some c) with
    | none => .error .usage
    | some f =>
      if !f.takesValue then (g.add f "").bind fun g => addLetters l g rest
      else
        match rest with
        | [] => .ok (g, some f)
        | d :: value =>
          (g.add f (String.ofList (if d = '=' then value else d :: value))).map (·, none)

/-- Takes an argument that starts with a dash. -/
def addFlags (l : Level) (g : Given) (arg : List Char) : Except Stop (Given × Option Flag) :=
  if arg.take 2 = ['-', '-'] then
    let word := (arg.drop 2).takeWhile (· ≠ '=')
    let value :=
      match (arg.drop 2).dropWhile (· ≠ '=') with
      | [] => none
      | _ :: value => some (String.ofList value)
    l.addWord g (String.ofList word) value
  else l.addLetters g arg.tail

/-- Whether an argument stands for options: it starts with a dash and is more than that. -/
def isFlags (arg : List Char) : Bool := arg.head? = some '-' && arg ≠ ['-']

/-- Reads the arguments of a level, given an option whose value has to come next.  The result has
the name of the command that ends the level, if any, and the arguments behind it. -/
def readFrom (l : Level) (g : Given) (pending : Option Flag) :
    List String → Except Stop (Given × Option (String × List String))
  | [] => if pending.isSome then .error .usage else .ok (g, none)
  | arg :: rest =>
    match pending with
    | some f =>
      if isFlags arg.toList then .error .usage
      else (g.add f arg).bind fun g => readFrom l g none rest
    | none =>
      if l.commands.contains arg then .ok (g, some (arg, rest))
      else if arg = "--" then (rest.foldlM l.addOperand g).map (·, none)
      else if isFlags arg.toList then
        (l.addFlags g arg.toList).bind fun (g, pending) => readFrom l g pending rest
      else (l.addOperand g arg).bind fun g => readFrom l g none rest

/-- Reads the arguments of a level. -/
def read (l : Level) (args : List String) : Except Stop (Given × Option (String × List String)) :=
  l.readFrom {} none args

end Level

end Tinct.CommandLine
