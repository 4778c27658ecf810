import Tinct.Pattern

/-! # Lexical grammars

A lexical grammar is a list of rules, each a kind of lexeme with a pattern for its texts.  At every
place of a text the longest match over all rules is taken; of rules that match at this length the
first counts.  A rule may let its match reach further, by a scan of the text behind it.  Where no
rule matches, a single character is a lexeme of no kind.

* `longest?` is the longest match;
* `lexemes` cuts a text into lexemes, and `lexemes_text` says that their texts give it back. -/

namespace Tinct

/-- A kind of lexeme and the pattern for its texts. -/
structure Rule (κ : Type) where
  kind : κ
  pattern : Pattern

/-- A piece of a text that was recognised as a whole; no kind means that it was not recognised. -/
structure Lexeme (κ : Type) where
  kind : Option κ
  text : List Char
deriving DecidableEq, Repr

/-- The rules of a language, the first of which wins among equally long matches.  The function
`extend` looks at a match and the text behind it, and gives the final kind and the number of further
characters that belong to the lexeme. -/
structure Grammar (κ : Type) where
  rules : List (Rule κ)
  extend : κ → List Char → List Char → κ × Nat := fun kind _ _ => (kind, 0)

namespace Grammar

variable {κ : Type}

/-- What is left of the rules after a character; rules that cannot match any more are dropped. -/
def advance (c : Char) (rules : List (Rule κ)) : List (Rule κ) :=
  (rules.map fun r => { r with pattern := r.pattern.after c }).filter fun r => !r.pattern.isNever

/-- The kind of the first rule that matches the empty text. -/
def matched? (rules : List (Rule κ)) : Option κ :=
  (rules.find? (·.pattern.acceptsEmpty)).map (·.kind)

/-- The kind and the length of the longest match at the start of a text. -/
def longest? (rules : List (Rule κ)) : List Char → Option (κ × Nat)
  | [] => (matched? rules).map (·, 0)
  | c :: rest =>
    if rules.isEmpty then none
    else
      match longest? (advance c rules) rest with
      | some (kind, n) => some (kind, n + 1)
      | none => (matched? rules).map (·, 0)

/-- The lexemes of a text in order. -/
def lexemes (g : Grammar κ) : List Char → List (Lexeme κ)
  | [] => []
  | c :: rest =>
    match longest? (advance c g.rules) rest with
    | none => ⟨none, [c]⟩ :: lexemes g rest
    | some (kind, n) =>
      let found := c :: rest.take n
      let behind := rest.drop n
      let (kind, more) := g.extend kind found behind
      ⟨some kind, found ++ behind.take more⟩ :: lexemes g (behind.drop more)
termination_by text => text.length
decreasing_by all_goals simp only [List.length_cons, List.length_drop]; omega

/-- The texts of the lexemes, one after the other, are the text itself. -/
theorem lexemes_text (g : Grammar κ) (text : List Char) :
    (g.lexemes text).flatMap (·.text) = text := by
  fun_induction g.lexemes text with
  | case1 => rfl
  | case2 c rest _ ih => simp [ih]
  | case3 c rest kind n _ found behind kind' more _ ih =>
    simp only [List.flatMap_cons, ih, List.append_assoc, List.take_append_drop, found, behind,
      List.cons_append]

end Grammar

end Tinct
