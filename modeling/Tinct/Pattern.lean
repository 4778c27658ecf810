/-! # Patterns

A pattern describes a set of texts, like a regular expression.  `Pattern.Matches` is its meaning.
A text is matched one character at a time: `after c p` describes what may follow `c` in a text of
`p`, so `p` describes a text exactly when the pattern left after all its characters accepts the
empty text. -/

namespace Tinct

/-- A description of a set of texts. -/
inductive Pattern where
  /-- No text. -/
  | never
  /-- The empty text only. -/
  | nothing
  /-- A single character of a class. -/
  | one (accepts : Char → Bool)
  /-- A text of the first pattern followed by one of the second. -/
  | seq (first second : Pattern)
  /-- A text of either pattern. -/
  | either (left right : Pattern)
  /-- Any number of texts of a pattern, one after the other. -/
  | many (body : Pattern)

namespace Pattern

/-- The texts that a pattern describes. -/
inductive Matches : Pattern → List Char → Prop
  | nothing : Matches .nothing []
  | one {accepts : Char → Bool} {c : Char} : accepts c = true → Matches (.one accepts) [c]
  | seq {p q : Pattern} {s t : List Char} : Matches p s → Matches q t → Matches (.seq p q) (s ++ t)
  | left {p q : Pattern} {s : List Char} : Matches p s → Matches (.either p q) s
  | right {p q : Pattern} {s : List Char} : Matches q s → Matches (.either p q) s
  | done {p : Pattern} : Matches (.many p) []
  | more {p : Pattern} {s t : List Char} :
      Matches p s → Matches (.many p) t → Matches (.many p) (s ++ t)

/-! ## Building patterns -/

/-- One of the characters of a list. -/
def anyOf (chars : String) : Pattern :=
  let cs := chars.toList
  .one fun c => cs.contains c

/-- One character outside a list. -/
def noneOf (chars : String) : Pattern :=
  let cs := chars.toList
  .one fun c => !cs.contains c

/-- Exactly the given characters, in order. -/
def chars : List Char → Pattern
  | [] => .nothing
  | c :: rest => .seq (.one (· = c)) (chars rest)

/-- Exactly the given text. -/
def text (t : String) : Pattern := chars t.toList

/-- One of the given texts. -/
def oneOfTexts (texts : List String) : Pattern :=
  texts.foldr (fun t p => .either (text t) p) .never

/-- At least one text of a pattern. -/
def many1 (p : Pattern) : Pattern := .seq p (.many p)

/-- A text of a pattern or nothing. -/
def optional (p : Pattern) : Pattern := .either p .nothing

/-- The patterns of a list, one after the other. -/
def inOrder (ps : List Pattern) : Pattern := ps.foldr .seq .nothing

/-! ## Matching -/

/-- Whether a pattern describes the empty text. -/
def acceptsEmpty : Pattern → Bool
  | never => false
  | nothing => true
  | one _ => false
  | seq p q => p.acceptsEmpty && q.acceptsEmpty
  | either p q => p.acceptsEmpty || q.acceptsEmpty
  | many _ => true

/-- A sequence, written as its second part where the first is `nothing`, and as `never` where a
part describes no text. -/
def joined : Pattern → Pattern → Pattern
  | never, _ => never
  | nothing, q => q
  | _, never => never
  | p, q => seq p q

/-- A choice, written as one side where the other describes no text. -/
def merged : Pattern → Pattern → Pattern
  | never, q => q
  | p, never => p
  | p, q => either p q

/-- The texts that may follow a character in the texts of a pattern. -/
def after (c : Char) : Pattern → Pattern
  | never => never
  | nothing => never
  | one accepts => if accepts c then nothing else never
  | seq p q =>
    if p.acceptsEmpty then merged (joined (p.after c) q) (q.after c) else joined (p.after c) q
  | either p q => merged (p.after c) (q.after c)
  | many p => joined (p.after c) (many p)

/-- Whether the pattern is written as `never`. -/
def isNever : Pattern → Bool
  | never => true
  | _ => false

/-- Whether a pattern describes a text. -/
def accepts (p : Pattern) : List Char → Bool
  | [] => p.acceptsEmpty
  | c :: rest => (p.after c).accepts rest

end Pattern

end Tinct
