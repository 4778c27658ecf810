import Tinct.Proofs.ListingText
import Tinct.Proofs.LosslessLexers
import Tinct.Proofs.SortedMaps
import Tinct.Session

/-!
# Listings give the prepared text back

Whatever lexer a choice leads to, it is one of the session, or plain text.  So where the lexers of
the session reproduce their texts, a listing holds the prepared source text, and the only failure
is a name that no lexer goes by.

## Key results

- `Lexers.mem_of_find`, `Lexers.mem_of_forFile`, `Lexers.mem_of_guess`: what is found is among the
  lexers
- `Session.select_eq_error_iff`: only a lexer that is named can be missing
- `Session.tokenize_reconstructs`: the listing of a source text holds the prepared text
-/

namespace Tinct

/-! ## Lexers that are found -/

namespace Lexers

/-- Every lexer of the collection reproduces its texts. -/
def Faithful (ls : Lexers) : Prop := ∀ lexer ∈ ls.byName.values, lexer.Reproduces

variable {ls : Lexers} {lexer : Lexer}

/-- A lexer that is found by name is in the collection. -/
theorem mem_of_find {name : String} (h : ls.find name = .ok lexer) :
    lexer ∈ ls.byName.values := by
  unfold find at h
  dsimp only at h
  split at h
  · rename_i hname
    obtain rfl := Except.ok.inj h
    exact SortedMap.mem_values_of_find? hname
  · split at h
    · rename_i halias
      obtain rfl := Except.ok.inj h
      exact List.mem_of_find?_eq_some halias
    · cases h

/-- So is one that is found by a path. -/
theorem mem_of_forFile {path : String} (h : ls.forFile path = .ok lexer) :
    lexer ∈ ls.byName.values := by
  unfold forFile at h
  dsimp only at h
  split at h
  · rename_i hglob
    obtain rfl := Except.ok.inj h
    exact List.mem_of_find?_eq_some hglob
  · cases h

/-- The search for the most confident lexer ends with one it has seen, or with the one it started
    from. -/
private theorem mem_of_foldl_moreConfident {source : String} {lexers : List Lexer}
    {best : Option (Lexer × Score)} {found : Lexer × Score}
    (h : lexers.foldl (moreConfident source) best = some found) :
    best = some found ∨ found.1 ∈ lexers := by
  induction lexers generalizing best with
  | nil => exact .inl h
  | cons next rest ih =>
    rcases ih h with hbest | hrest
    · -- the next lexer becomes the best one, or leaves it as it is
      unfold moreConfident at hbest
      dsimp only at hbest
      split at hbest
      · obtain rfl := Option.some.inj hbest
        exact .inr List.mem_cons_self
      · exact .inl hbest
    · exact .inr (List.mem_cons_of_mem _ hrest)

/-- A lexer that is guessed is in the collection. -/
theorem mem_of_guess {source : String} (h : ls.guess source = .ok lexer) :
    lexer ∈ ls.byName.values := by
  unfold guess at h
  split at h
  · rename_i hfound
    obtain rfl := Except.ok.inj h
    exact (mem_of_foldl_moreConfident hfound).resolve_left (by simp)
  · cases h

end Lexers

/-! ## Sessions -/

namespace Session

variable {s : Session} {source : String} {choice : LexerChoice}

/-- What a choice finds is among the lexers of the session. -/
theorem mem_of_find {lexer : Lexer} (h : s.find source choice = .ok lexer) :
    lexer ∈ s.lexers.byName.values := by
  cases choice with
  | named name => exact Lexers.mem_of_find h
  | guess => exact Lexers.mem_of_guess h
  | forFile path =>
    simp only [find] at h
    split at h
    · rename_i hfile
      exact Lexers.mem_of_forFile (hfile.trans h)
    · exact Lexers.mem_of_guess h

/-- Only a lexer that is named can be missing. -/
theorem select_eq_error_iff {e : Failure} :
    s.select source choice = .error e ↔
      ∃ name, choice = .named name ∧ s.lexers.find name = .error e := by
  cases choice with
  | named name =>
    constructor
    · intro h
      exact ⟨name, rfl, h⟩
    · intro h
      obtain ⟨_, hname, h⟩ := h
      rw [← LexerChoice.named.inj hname] at h
      exact h
  | forFile path =>
    -- without a name, plain text stands in for a lexer that is not found
    unfold select
    cases s.find source (.forFile path) <;> simp
  | guess =>
    unfold select
    cases s.find source .guess <;> simp

/-- The selected lexer is one of the session, or plain text. -/
theorem mem_of_select {lexer : Lexer} (h : s.select source choice = .ok lexer) :
    lexer ∈ s.lexers.byName.values ∨ lexer = .plainText := by
  unfold select at h
  split at h
  · exact .inl (mem_of_find h)
  · rename_i hfound
    obtain rfl := Except.ok.inj h
    exact .inl (mem_of_find hfound)
  · -- nothing was found for a choice without a name
    exact .inr (Except.ok.inj h).symm

/-- In a faithful collection, what is selected reproduces its text. -/
theorem reproduces_of_select (hfaithful : s.lexers.Faithful) {lexer : Lexer}
    (h : s.select source choice = .ok lexer) : lexer.Reproduces := by
  rcases mem_of_select h with hmem | rfl
  · exact hfaithful lexer hmem
  · exact Lexer.reproduces_plainText

/-- The listing by a lexer that reproduces its texts holds the prepared source text. -/
theorem tokenizeWith_holds {lexer : Lexer} (h : lexer.Reproduces) :
    (s.tokenizeWith lexer source).Holds (s.settings.preparation.apply source) := by
  have hlisting := Listing.ofFragments_holds (lexer.fragments (s.settings.preparation.apply source))
  rw [h] at hlisting
  exact hlisting

/-- The built-in lexers are faithful; and in any session with faithful lexers, whatever its
    settings, a listing fails only for the name of no lexer, and otherwise holds the prepared
    source text. -/
theorem tokenize_reconstructs :
    Lexers.builtin.Faithful ∧
    ∀ s : Session, s.lexers.Faithful → ∀ (source : String) (choice : LexerChoice),
      (∀ e, s.tokenize source choice = .error e ↔
        ∃ name, choice = .named name ∧ s.lexers.find name = .error e) ∧
      ∀ listing, s.tokenize source choice = .ok listing →
        listing.Holds (s.settings.preparation.apply source) := by
  refine ⟨fun _ => Lexer.reproduces_of_mem_builtin, fun s hfaithful source choice => ?_⟩
  unfold tokenize
  constructor
  · intro e
    rw [← select_eq_error_iff]
    -- tokenizing fails where the selection of a lexer does, and with the same failure
    cases s.select source choice <;> simp [Except.map]
  · intro listing h
    cases hselect : s.select source choice with
    | error e =>
      rw [hselect] at h
      cases h
    | ok lexer =>
      rw [hselect] at h
      -- the lexer reproduces the prepared text, so the listing holds it
      obtain rfl := Except.ok.inj h
      exact tokenizeWith_holds (reproduces_of_select hfaithful hselect)

/-- A text that is prepared and taken as plain text, and a name that no lexer goes by. -/
theorem tokenize_reconstructs_builtin :
    (∃ listing, ({} : Session).tokenize "\na\r\n\nb" (.named "text") = .ok listing ∧
      listing.Holds "a\n\nb\n") ∧
    ({} : Session).tokenize "a" (.named "cobol") = .error (.noLexer "cobol") := by
  obtain ⟨hbuiltin, h⟩ := tokenize_reconstructs
  refine ⟨⟨_, rfl, ?_⟩, ?_⟩
  · have hprepared : ({} : Session).settings.preparation.apply "\na\r\n\nb" = "a\n\nb\n" := by
      decide
    rw [← hprepared]
    exact (h {} hbuiltin _ (.named "text")).2 _ rfl
  · exact ((h {} hbuiltin "a" (.named "cobol")).1 _).mpr ⟨"cobol", rfl, rfl⟩

end Session

end Tinct
