import Tinct.Proofs.GlobLanguage
import Tinct.Proofs.LexerRequests
import Tinct.Proofs.PatternMatching

/-!
# Globs as regular expressions

A glob can be turned into a regular expression by editing texts: all characters with a meaning of
their own get a backslash, then those of the wildcards are replaced by what they stand for.  A
backslash in the glob gets one, too, so no backslash is ever taken for that of a wildcard behind it,
and the result is spelled sign by sign as the glob is.  It describes the same names.

## Key results

- `replaced_flatMap`: a replacement in a text that is made of blocks
- `expression_eq`: the edited text spells one sign for each character of the glob
- `matches_signs_iff`: the pattern of these signs describes the names that the glob spells
- `Lexers.describes_and_claims`: what globs describe, and which lexer claims a file
-/

namespace Tinct.Glob

/-! ## Regular expressions -/

/-- The characters with a meaning of their own in regular expressions. -/
def metaCharacters : List Char := "\\.+*?()|[]{}^$#&-~".toList

/-- A character as it stands for itself in a regular expression. -/
def literal (c : Char) : List Char := if c ∈ metaCharacters then ['\\', c] else [c]

/-- A sign of a regular expression: a character, or any one but a line feed, once or in any
number. -/
inductive Sign where
  | char (c : Char)
  | any
  | anyRun
deriving DecidableEq, Repr

/-- How a sign is spelled. -/
def Sign.spelling : Sign → List Char
  | char c => literal c
  | any => ['.']
  | anyRun => ['.', '*']

/-- The texts that a sign stands for. -/
def Sign.pattern : Sign → Pattern
  | char c => .one (· = c)
  | any => .one (· ≠ '\n')
  | anyRun => .many (.one (· ≠ '\n'))

/-- The regular expression for texts that consist of what some signs stand for: their spellings
between the marks of the start and the end. -/
def spelled (signs : List Sign) : List Char := '^' :: signs.flatMap Sign.spelling ++ ['$']

/-- An engine for regular expressions. -/
structure Engine where
  /-- Edits a text so that it stands for itself. -/
  escape : List Char → List Char
  /-- The regular expressions that are not too large. -/
  Admits : List Char → Prop
  /-- Makes a matcher of a regular expression. -/
  compile? : List Char → Option (List Char → Bool)

/-- The engine knows the characters with a meaning of their own, and reads signs as what they stand
for. -/
structure Engine.IsFaithful (engine : Engine) : Prop where
  escape_eq : ∀ text, engine.escape text = text.flatMap literal
  exists_compile? : ∀ signs : List Sign, engine.Admits (spelled signs) →
    ∃ matcher, engine.compile? (spelled signs) = some matcher ∧
      ∀ name, matcher name = true ↔ (Pattern.inOrder (signs.map Sign.pattern)).Matches name

/-! ## Replacing -/

/-- A text in which a pair of characters is replaced wherever it stands, from the left. -/
def replaced (first second : Char) (new : List Char) : List Char → List Char
  | c :: d :: rest =>
    if c = first ∧ d = second then new ++ replaced first second new rest
    else c :: replaced first second new (d :: rest)
  | [c] => [c]
  | [] => []

/-- The regular expression of a glob. -/
def expression (engine : Engine) (glob : List Char) : List Char :=
  '^' :: replaced '\\' '?' ['.'] (replaced '\\' '*' ['.', '*'] (engine.escape glob)) ++ ['$']

section Replaced

variable {first second : Char} {new rest : List Char} {c : Char}

theorem replaced_pair : replaced first second new (first :: second :: rest) =
    new ++ replaced first second new rest := by
  rw [replaced, if_pos ⟨rfl, rfl⟩]

/-- A character that does not start the pair stays. -/
theorem replaced_cons (h : ¬ (c = first ∧ rest.head? = some second)) :
    replaced first second new (c :: rest) = c :: replaced first second new rest := by
  cases rest with
  | nil => rfl
  | cons d rest => rw [replaced, if_neg (by simpa using h)]

/-- Where the first character of the pair is missing, nothing is replaced. -/
theorem replaced_append {front : List Char} (h : first ∉ front) :
    replaced first second new (front ++ rest) = front ++ replaced first second new rest := by
  induction front with
  | nil => rfl
  | cons c front ih =>
    rw [List.mem_cons, not_or] at h
    rw [List.cons_append, replaced_cons fun hpair => h.1 hpair.1.symm, ih h.2, List.cons_append]

/-- A block of a text: a character behind a backslash, or characters without backslashes that do not
start with the given one. -/
def IsBlock (mark : Char) (block : List Char) : Prop :=
  (∃ c, block = ['\\', c]) ∨ '\\' ∉ block ∧ block.head? ≠ some mark

variable {mark : Char} {glob : List Char} {block : Char → List Char}

/-- A text of blocks does not start with the character. -/
theorem head?_flatMap_ne (hmark : mark ≠ '\\') (h : ∀ g, IsBlock mark (block g)) (glob : List Char) :
    (glob.flatMap block).head? ≠ some mark := by
  induction glob with
  | nil => simp
  | cons g glob ih =>
    rw [List.flatMap_cons]
    -- a pair starts with a backslash; an empty block leaves the start to the next one
    rcases h g with ⟨c, hpair⟩ | ⟨-, hhead⟩
    · rw [hpair]
      simpa using hmark.symm
    · cases hblock : block g with
      | nil => exact ih
      | cons d more => simpa [hblock] using hhead

/-- In a text of blocks a character behind a backslash is replaced where it is a block of its own
    with this backslash, and nowhere else. -/
theorem replaced_flatMap (hmark : mark ≠ '\\') (h : ∀ g, IsBlock mark (block g)) (glob : List Char) :
    replaced '\\' mark new (glob.flatMap block) =
      glob.flatMap fun g => if block g = ['\\', mark] then new else block g := by
  induction glob with
  | nil => rfl
  | cons g glob ih =>
    rw [List.flatMap_cons, List.flatMap_cons, ← ih]
    -- a block is a pair, or has no backslash at all
    rcases h g with ⟨c, hpair⟩ | ⟨hnone, -⟩
    · rw [hpair]
      by_cases hc : c = mark
      · subst hc
        rw [if_pos rfl]
        exact replaced_pair
      · -- the character may be a backslash, but then the next block does not start with the mark
        have hnext : ¬ (c = '\\' ∧ (glob.flatMap block).head? = some mark) :=
          fun hboth => head?_flatMap_ne hmark h glob hboth.2
        have hthis : ¬ ('\\' = '\\' ∧ (c :: glob.flatMap block).head? = some mark) := by
          simpa using hc
        rw [if_neg (by simpa using hc), List.cons_append, List.cons_append, List.nil_append,
          replaced_cons hthis, replaced_cons hnext]
        rfl
    · rw [if_neg fun heq => hnone (by simp [heq]), replaced_append hnone]

end Replaced

/-! ## The expression of a glob -/

/-- The sign for a character of a glob. -/
def signOf (g : Char) : Sign := if g = '*' then .anyRun else if g = '?' then .any else .char g

/-- A character as it stands for itself is a block. -/
theorem isBlock_literal {mark : Char} (hmark : mark ∈ metaCharacters) (g : Char) :
    IsBlock mark (literal g) := by
  unfold literal
  split
  · exact .inl ⟨g, rfl⟩
  · -- without a backslash it is no character with a meaning of its own, as the mark is
    rename_i hg
    refine .inr ⟨fun hmem => hg ?_, fun hhead => hg ?_⟩
    · rw [← List.mem_singleton.mp hmem]
      decide
    · rw [Option.some.inj hhead]
      exact hmark

/-- A mark with a backslash in front of it is the literal of this mark only. -/
theorem literal_eq_pair_iff {mark : Char} (hmark : mark ∈ metaCharacters) {g : Char} :
    literal g = ['\\', mark] ↔ g = mark := by
  constructor
  · intro h
    unfold literal at h
    split at h
    · simpa using h
    · cases h
  · intro h
    subst h
    exact if_pos hmark

/-- What stands for a character of a glob once the stars are replaced. -/
def starred (g : Char) : List Char := if literal g = ['\\', '*'] then ['.', '*'] else literal g

/-- Once the stars are replaced, what stands for a character is still a block. -/
theorem isBlock_starred (g : Char) : IsBlock '?' (starred g) := by
  unfold starred
  split
  · exact .inr ⟨by decide, by decide⟩
  · exact isBlock_literal (by decide) g

/-- Any other character still stands for itself. -/
theorem starred_of_ne_star {g : Char} (hg : g ≠ '*') : starred g = literal g :=
  if_neg (mt (literal_eq_pair_iff (by decide)).mp hg)

/-- What stands for a character once the question marks are replaced, too, is the spelling of its
sign. -/
theorem spelling_signOf (g : Char) :
    (if starred g = ['\\', '?'] then ['.'] else starred g) = (signOf g).spelling := by
  -- the wildcards are two cases, and any other character stands for itself
  by_cases hstar : g = '*'
  · subst hstar
    decide
  · rw [starred_of_ne_star hstar, signOf, if_neg hstar]
    by_cases hmark : g = '?'
    · subst hmark
      decide
    · rw [if_neg (mt (literal_eq_pair_iff (by decide)).mp hmark), if_neg hmark]
      rfl

/-- The edited text spells one sign for each character of the glob. -/
theorem expression_eq {engine : Engine} (hengine : engine.IsFaithful) (glob : List Char) :
    expression engine glob = spelled (glob.map signOf) := by
  have hstars : replaced '\\' '*' ['.', '*'] (engine.escape glob) = glob.flatMap starred := by
    rw [hengine.escape_eq]
    exact replaced_flatMap (by decide) (isBlock_literal (by decide)) glob
  -- what the first replacement leaves is made of blocks again, since `.*` starts with no mark
  have hmarks : replaced '\\' '?' ['.'] (glob.flatMap starred) =
      glob.flatMap fun g => (signOf g).spelling := by
    rw [replaced_flatMap (by decide) isBlock_starred]
    simp only [spelling_signOf]
  rw [expression, hstars, hmarks, spelled, List.flatMap_map]

/-- A sign stands for the pieces that its character of the glob stands for. -/
theorem matches_sign_iff {g : Char} {piece : List Char} :
    (signOf g).pattern.Matches piece ↔ StandsFor g piece := by
  by_cases hstar : g = '*'
  · subst hstar
    rw [standsFor_star_iff]
    refine Pattern.matches_many_one_iff.trans ?_
    simp only [decide_eq_true_iff]
    exact ⟨fun h hmem => h _ hmem rfl, fun h c hc heq => h (heq ▸ hc)⟩
  · -- any other sign is for one character
    have hpattern : (signOf g).pattern = .one (accepts g) := by
      rw [signOf, if_neg hstar]
      by_cases hmark : g = '?'
      · subst hmark
        rfl
      · have haccepts : accepts g = fun c => decide (c = g) := by
          funext c
          rw [accepts, if_neg hmark]
          exact decide_eq_decide.mpr eq_comm
        rw [if_neg hmark, haccepts]
        rfl
    rw [hpattern, standsFor_iff_of_ne_star hstar, Pattern.matches_one_iff]

/-- The pattern of the signs of a glob describes the names that the glob spells. -/
theorem matches_signs_iff {glob name : List Char} :
    (Pattern.inOrder ((glob.map signOf).map Sign.pattern)).Matches name ↔ Spells glob name := by
  induction glob generalizing name with
  | nil => exact Pattern.matches_nothing_iff.trans spells_nil_iff.symm
  | cons g glob ih =>
    -- the pattern of the first sign comes in front
    have hcons : Pattern.inOrder (((g :: glob).map signOf).map Sign.pattern) =
        .seq (signOf g).pattern (Pattern.inOrder ((glob.map signOf).map Sign.pattern)) := rfl
    rw [hcons, Pattern.matches_seq_iff, spells_cons_iff]
    simp only [matches_sign_iff, ih]

/-- The regular expression of a glob can be read, and matches the names that the glob spells. -/
theorem exists_matcher {engine : Engine} (hengine : engine.IsFaithful) {glob : List Char}
    (hsize : engine.Admits (expression engine glob)) :
    ∃ matcher, engine.compile? (expression engine glob) = some matcher ∧
      ∀ name, matcher name = true ↔ Spells glob name := by
  rw [expression_eq hengine] at hsize ⊢
  obtain ⟨matcher, hmatcher, hmatches⟩ := hengine.exists_compile? (glob.map signOf) hsize
  exact ⟨matcher, hmatcher, fun name => (hmatches name).trans matches_signs_iff⟩

/-! ## Reading signs -/

/-- Signs of which the last one, any character but a line feed, may come in any number. -/
def withRun? : List Sign → Option (List Sign)
  | .any :: before => some (.anyRun :: before)
  | _ => none

/-- Reads the signs of a regular expression up to the mark of the end, behind those already read, the
last of them first, and maybe behind a backslash. -/
def readSigns : List Sign → Bool → List Char → Option (List Sign)
  | _, _, [] => none
  | before, true, c :: rest =>
    if c ∈ metaCharacters then readSigns (.char c :: before) false rest else none
  | before, false, c :: rest =>
    if c = '\\' then readSigns before true rest
    else if c = '.' then readSigns (.any :: before) false rest
    else if c = '*' then (withRun? before).bind fun before => readSigns before false rest
    else if c ∈ metaCharacters then
      if c = '$' ∧ rest = [] then some before.reverse else none
    else readSigns (.char c :: before) false rest

/-- A character that is spelled as itself is read as itself. -/
theorem readSigns_literal (before : List Sign) (c : Char) (rest : List Char) :
    readSigns before false (literal c ++ rest) = readSigns (.char c :: before) false rest := by
  unfold literal
  split
  · rename_i hc
    exact if_pos hc
  · rename_i hc
    -- it has no meaning of its own, so it is none of those that are looked for
    have hne : ∀ d ∈ metaCharacters, c ≠ d := by
      rintro d hd rfl
      exact hc hd
    rw [List.singleton_append, readSigns, if_neg (hne _ (by decide)), if_neg (hne _ (by decide)),
      if_neg (hne _ (by decide)), if_neg hc]

/-- Signs are read back from their spelling. -/
theorem readSigns_spelling (before signs : List Sign) :
    readSigns before false (signs.flatMap Sign.spelling ++ ['$']) =
      some (before.reverse ++ signs) := by
  induction signs generalizing before with
  | nil =>
    rw [List.append_nil]
    rfl
  | cons sign signs ih =>
    have hstep : before.reverse ++ sign :: signs = (sign :: before).reverse ++ signs := by simp
    -- the first sign is read and kept in front of those before it
    rw [List.flatMap_cons, List.append_assoc, hstep, ← ih]
    cases sign with
    | char c => exact readSigns_literal before c _
    | any => rfl
    | anyRun => rfl

/-- An engine for the regular expressions that are made of signs. -/
def signEngine : Engine where
  escape text := text.flatMap literal
  Admits text := text.length ≤ 1000
  compile?
    | '^' :: rest => (readSigns [] false rest).map fun signs name =>
      (Pattern.inOrder (signs.map Sign.pattern)).accepts name
    | _ => none

/-- This engine reads signs as what they stand for. -/
theorem isFaithful_signEngine : signEngine.IsFaithful where
  escape_eq _ := rfl
  exists_compile? signs _ := by
    refine ⟨_, ?_, fun name => Pattern.accepts_iff⟩
    exact congrArg (Option.map _) (readSigns_spelling [] signs)

end Tinct.Glob

namespace Tinct.Lexers

open Glob

/-- A glob describes the names that it spells, with any run for each star, any one character for each
    question mark and itself for every other character, and the regular expression of the glob
    matches the same names in every engine.  Each path has one name for its file, the last one in it
    or the empty text if it has none.  After any run of registrations a path is answered with the
    first lexer that has a glob for this name, or with a failure that has the path if there is
    none. -/
theorem describes_and_claims (history : List Lexer) :
    (∀ glob name : String, describes glob name = true ↔ Spells glob.toList name.toList) ∧
    (∀ engine : Engine, engine.IsFaithful → ∀ glob : String,
      engine.Admits (expression engine glob.toList) →
      ∃ matcher, engine.compile? (expression engine glob.toList) = some matcher ∧
        ∀ name : String, matcher name.toList = true ↔ Spells glob.toList name.toList) ∧
    (∀ path, ∃! name, Path.IsFileName path name) ∧
    ∀ path name, Path.IsFileName path name →
      Answers ((registered history).forFile path) (.noLexer path)
        (IsFirst history fun lexer => ∃ glob ∈ lexer.filenames,
          Spells glob.toList name.toList) := by
  refine ⟨fun glob name => describes_iff, fun engine hengine glob hsize => ?_, fun path => ?_,
    fun path name hname => ?_⟩
  · obtain ⟨matcher, hmatcher, hmatches⟩ := exists_matcher hengine hsize
    exact ⟨matcher, hmatcher, fun name => hmatches name.toList⟩
  · simp only [Path.isFileName_iff, existsUnique_eq']
  · -- the name is the only one, so a lexer claims the path by a glob for it
    rw [Path.isFileName_iff] at hname
    have hclaims : ClaimsFile path = fun lexer => ∃ glob ∈ lexer.filenames,
        Spells glob.toList name.toList := by
      funext lexer
      simp only [ClaimsFile, Path.isFileName_iff, exists_eq_left', hname]
    rw [← hclaims]
    exact answers_forFile history path

/-- A lexer that has globs and nothing else. -/
def globbed (name : String) (filenames : List String) : Lexer :=
  { name, filenames, fragments := fun _ => [] }

/-- A backslash in front of a wildcard stands for itself, also in the regular expression, so the glob
    describes a name with a backslash and not one without.  Of a path only the last name counts, in
    whatever form the path is written; where a path goes up at its end, the name is empty. -/
theorem describes_and_claims_of_backslash :
    let glob := "\\*?.c"
    let history := [globbed "c" ["*.h", "a*.c"], globbed "b" ["*.c"], globbed "a" ["src*", "?.c"],
      globbed "e" [""]]
    let claims (name : String) (lexer : Lexer) : Prop :=
      ∃ glob ∈ lexer.filenames, Spells glob.toList name.toList
    signEngine.IsFaithful ∧ signEngine.Admits (expression signEngine glob.toList) ∧
      expression signEngine glob.toList = "^\\\\.*.\\.c$".toList ∧
      (∃ matcher, signEngine.compile? (expression signEngine glob.toList) = some matcher ∧
        matcher "\\.c.c".toList = true ∧ ¬ matcher "*a.c".toList = true) ∧
      (Path.IsFileName "src//ab.c/." "ab.c" ∧
        (registered history).forFile "src//ab.c/." = .ok (globbed "b" ["*.c"]) ∧
        IsFirst history (claims "ab.c") (globbed "b" ["*.c"])) ∧
      (Path.IsFileName "src/.." "" ∧
        (registered history).forFile "src/.." = .ok (globbed "e" [""]) ∧
        IsFirst history (claims "") (globbed "e" [""])) ∧
      Path.IsFileName "src/x.py" "x.py" ∧
        (registered history).forFile "src/x.py" = .error (.noLexer "src/x.py") ∧
        ∀ lexer, ¬ IsFirst history (claims "x.py") lexer := by
  intro glob history claims
  obtain ⟨hdescribes, hengine, -, hfile⟩ := describes_and_claims history
  have hsize : signEngine.Admits (expression signEngine glob.toList) := by
    show (expression signEngine glob.toList).length ≤ 1000
    decide
  obtain ⟨matcher, hmatcher, hmatches⟩ := hengine signEngine isFaithful_signEngine glob hsize
  -- the last names, behind two slashes and in front of a dot, behind none, and behind one
  have hname : Path.IsFileName "src//ab.c/." "ab.c" :=
    .inl ⟨⟨by decide, by decide, by decide, by decide⟩, "src//".toList, "/.".toList, rfl, .inr rfl,
      [['/', '.']], rfl, by simp⟩
  have hempty : Path.IsFileName "src/.." "" := Path.isFileName_iff.mpr (by decide)
  have hother : Path.IsFileName "src/x.py" "x.py" := Path.isFileName_iff.mpr (by decide)
  have hfound : (registered history).forFile "src//ab.c/." = .ok (globbed "b" ["*.c"]) := rfl
  have hup : (registered history).forFile "src/.." = .ok (globbed "e" [""]) := rfl
  have hmissing : (registered history).forFile "src/x.py" = .error (.noLexer "src/x.py") := rfl
  refine ⟨isFaithful_signEngine, hsize, by decide, ⟨matcher, hmatcher, ?_, ?_⟩,
    ⟨hname, hfound, ((hfile _ _ hname).ok_iff _).mp hfound⟩,
    ⟨hempty, hup, ((hfile _ _ hempty).ok_iff _).mp hup⟩,
    hother, hmissing, (((hfile _ _ hother).error_iff _).mp hmissing).2⟩
  · rw [hmatches, ← hdescribes]
    decide
  · rw [hmatches, ← hdescribes]
    decide

end Tinct.Lexers
