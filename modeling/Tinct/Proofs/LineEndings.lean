import Tinct.Session

/-!
# Line endings make no difference

Unified line endings are what one pass over the text finds: every line feed, every carriage return
and every pair of both is one line ending, written as a line feed.  So two spellings of one text
have the same prepared form, and with it the same fragments and the same listing.

## Key results

- `unifyLineEndings_eq_scan`: the two replacements are one pass over the text
- `respelled_iff`: the spellings of a text are the texts whose unified form it is
- `Session.tokenize_respelled`: a spelling has the fragments and the listing of its text
-/

namespace Tinct

/-! ## Spellings of a text -/

/-- The second text is the first one, which has no carriage return, with each of its line feeds
written as one of the three line endings.  No carriage return that is a line ending stands right
before a line feed that is one, since the two would be read as a pair. -/
inductive Respelled : List Char → List Char → Prop where
  | nil : Respelled [] []
  | char {c : Char} {text other : List Char} (hreturn : c ≠ '\r') (hfeed : c ≠ '\n')
      (h : Respelled text other) : Respelled (c :: text) (c :: other)
  | lineFeed {text other : List Char} (h : Respelled text other) :
      Respelled ('\n' :: text) ('\n' :: other)
  | both {text other : List Char} (h : Respelled text other) :
      Respelled ('\n' :: text) ('\r' :: '\n' :: other)
  | carriageReturn {text other : List Char} (h : Respelled text other)
      (hnext : other.head? ≠ some '\n') : Respelled ('\n' :: text) ('\r' :: other)

/-- A text is one of its spellings. -/
theorem Respelled.refl {text other : List Char} (h : Respelled text other) :
    Respelled text text := by
  induction h with
  | nil => exact .nil
  | char hreturn hfeed _ ih => exact .char hreturn hfeed ih
  | lineFeed _ ih => exact .lineFeed ih
  | both _ ih => exact .lineFeed ih
  | carriageReturn _ _ ih => exact .lineFeed ih

namespace Preparation

/-! ## One line ending after the other -/

theorem unifyLineEndings_both (rest : List Char) :
    unifyLineEndings ('\r' :: '\n' :: rest) = '\n' :: unifyLineEndings rest := rfl

/-- Any other character than a carriage return stays. -/
theorem unifyLineEndings_of_ne {c : Char} (hc : c ≠ '\r') (rest : List Char) :
    unifyLineEndings (c :: rest) = c :: unifyLineEndings rest := by
  have hjoin : joinReturnFeeds (c :: rest) = c :: joinReturnFeeds rest := by
    rw [joinReturnFeeds]
    intro _ h
    exact absurd h hc
  simp [unifyLineEndings, hjoin, hc]

/-- A carriage return alone becomes a line feed. -/
theorem unifyLineEndings_return {rest : List Char} (hnext : rest.head? ≠ some '\n') :
    unifyLineEndings ('\r' :: rest) = '\n' :: unifyLineEndings rest := by
  have hjoin : joinReturnFeeds ('\r' :: rest) = '\r' :: joinReturnFeeds rest := by
    rw [joinReturnFeeds]
    intro _ _ hrest
    exact hnext (by rw [hrest]; rfl)
  simp [unifyLineEndings, hjoin]

/-- A text is empty, or starts with a pair of carriage return and line feed, a carriage return that
    no line feed follows, or another character. -/
@[elab_as_elim]
theorem lineEndings_induction {motive : List Char → Prop} (nil : motive [])
    (both : ∀ rest, motive rest → motive ('\r' :: '\n' :: rest))
    (carriageReturn : ∀ rest, rest.head? ≠ some '\n' → motive rest → motive ('\r' :: rest))
    (other : ∀ c rest, c ≠ '\r' → motive rest → motive (c :: rest)) (text : List Char) :
    motive text := by
  induction text using joinReturnFeeds.induct with
  | case1 rest ih => exact both rest ih
  | case2 c rest hnot ih =>
    by_cases hc : c = '\r'
    · subst hc
      -- there is no pair here, so no line feed comes next
      refine carriageReturn rest (fun hnext => ?_) ih
      obtain ⟨rest', hrest⟩ := List.head?_eq_some_iff.mp hnext
      exact hnot rest' rfl hrest
    · exact other c rest hc ih
  | case3 => exact nil

/-! ## One pass -/

/-- One pass over a text in which every line ending becomes a line feed.  A carriage return is
written as one at once, so a line feed that comes right behind it is left out. -/
def scanLineEndings (afterReturn : Bool) : List Char → List Char
  | [] => []
  | c :: rest =>
    if c = '\r' then '\n' :: scanLineEndings true rest
    else if c = '\n' ∧ afterReturn then scanLineEndings false rest
    else c :: scanLineEndings false rest

/-- Where no line feed comes next, it does not matter whether a carriage return came before. -/
theorem scanLineEndings_of_head? {text : List Char} (h : text.head? ≠ some '\n')
    (afterReturn : Bool) : scanLineEndings afterReturn text = scanLineEndings false text := by
  cases text with
  | nil => rfl
  | cons c rest =>
    have hc : c ≠ '\n' := by simpa using h
    simp [scanLineEndings, hc]

/-- Joining the pairs first and replacing the other carriage returns then is one pass. -/
theorem unifyLineEndings_eq_scan (text : List Char) :
    unifyLineEndings text = scanLineEndings false text := by
  induction text using lineEndings_induction with
  | nil => rfl
  | both rest ih =>
    rw [unifyLineEndings_both, ih]
    simp [scanLineEndings]
  | carriageReturn rest hnext ih =>
    have hscan : scanLineEndings false ('\r' :: rest) = '\n' :: scanLineEndings true rest := by
      simp [scanLineEndings]
    rw [unifyLineEndings_return hnext, ih, hscan, scanLineEndings_of_head? hnext true]
  | other c rest hc ih =>
    rw [unifyLineEndings_of_ne hc, ih]
    simp [scanLineEndings, hc]

/-! ## Spellings have one unified form -/

/-- Respelled line endings are unified. -/
theorem unifyLineEndings_respelled {text other : List Char} (h : Respelled text other) :
    unifyLineEndings other = text := by
  induction h with
  | nil => rfl
  | char hreturn _ _ ih => rw [unifyLineEndings_of_ne hreturn, ih]
  | lineFeed _ ih => rw [unifyLineEndings_of_ne (by decide), ih]
  | both _ ih => rw [unifyLineEndings_both, ih]
  | carriageReturn _ hnext ih => rw [unifyLineEndings_return hnext, ih]

/-- Every text respells what is left of it once its line endings are unified. -/
theorem respelled_unifyLineEndings (text : List Char) :
    Respelled (unifyLineEndings text) text := by
  induction text using lineEndings_induction with
  | nil => exact .nil
  | both rest ih => exact .both ih
  | carriageReturn rest hnext ih =>
    rw [unifyLineEndings_return hnext]
    exact .carriageReturn ih hnext
  | other c rest hc ih =>
    rw [unifyLineEndings_of_ne hc]
    by_cases hfeed : c = '\n'
    · rw [hfeed]
      exact .lineFeed ih
    · exact .char hc hfeed ih

/-- The spellings of a text are the texts whose unified form it is. -/
theorem respelled_iff {text other : List Char} :
    Respelled text other ↔ unifyLineEndings other = text := by
  constructor
  · exact unifyLineEndings_respelled
  · intro h
    rw [← h]
    exact respelled_unifyLineEndings other

/-- Where line endings are unified, a spelling has the prepared form of its text. -/
theorem apply_respelled {p : Preparation} (hp : p.normalizeLineEndings = true)
    {text other : String} (h : Respelled text.toList other.toList) :
    p.apply other = p.apply text := by
  have hunified : unifyLineEndings other.toList = unifyLineEndings text.toList := by
    rw [unifyLineEndings_respelled h, unifyLineEndings_respelled h.refl]
  -- the later steps see only the unified text
  simp only [apply, applyChars, hp, if_true, hunified]

end Preparation

namespace Session

/-- Unified line endings are found in one pass; and where they are unified, a spelling of a text has
    the fragments of the text with every lexer, and the same listing, or failure, under every name
    of a lexer. -/
theorem tokenize_respelled :
    (∀ text, Preparation.unifyLineEndings text = Preparation.scanLineEndings false text) ∧
    ∀ text other : String, Respelled text.toList other.toList →
      (∀ (p : Preparation) (lexer : Lexer), p.normalizeLineEndings = true →
        lexer.fragments (p.apply other) = lexer.fragments (p.apply text)) ∧
      ∀ (s : Session) (name : String), s.settings.preparation.normalizeLineEndings = true →
        s.tokenize other (.named name) = s.tokenize text (.named name) := by
  refine ⟨Preparation.unifyLineEndings_eq_scan, fun text other h => ⟨?_, ?_⟩⟩
  · intro p lexer hp
    rw [Preparation.apply_respelled hp h]
  · intro s name hp
    -- a lexer that is named does not depend on the source text
    have hselect : s.select other (.named name) = s.select text (.named name) := rfl
    -- the lexer gets the same prepared text
    have hlisting : ∀ lexer, s.tokenizeWith lexer other = s.tokenizeWith lexer text := by
      intro lexer
      rw [tokenizeWith, tokenizeWith, Preparation.apply_respelled hp h]
    simp only [tokenize, hselect, hlisting]

/-- All three line endings side by side: a pair, two carriage returns of which the second is part of
    a pair, a line feed, and a carriage return at the end of the text. -/
theorem tokenize_respelled_of_mixed :
    let text := "if a:\n\n\n\n\tb\n"
    let other := "if a:\r\n\r\r\n\n\tb\r"
    Respelled text.toList other.toList ∧
      Lexer.python.fragments (Preparation.apply { tabSize := 4 } other) =
        Lexer.python.fragments (Preparation.apply { tabSize := 4 } text) ∧
      ({} : Session).tokenize other (.named "py") = ({} : Session).tokenize text (.named "py") := by
  intro text other
  have hspelled : Respelled text.toList other.toList := Preparation.respelled_iff.mpr (by decide)
  obtain ⟨hfragments, htokenize⟩ := tokenize_respelled.2 text other hspelled
  exact ⟨hspelled, hfragments _ _ rfl, htokenize _ _ rfl⟩

end Session

end Tinct
