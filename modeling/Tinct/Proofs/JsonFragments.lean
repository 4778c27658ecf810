import Tinct.Proofs.JsonDocuments
import Tinct.Proofs.JsonLexemes

/-!
# The fragments of JSON documents

At each place of a document the next lexeme is the next piece, with all blanks of a run taken
together, and a colon follows the strings that name members and no others.  So the lexer, which has
no notion of nesting, tells names from values at any depth.

## Key results

- `lexemes_texts`: the lexemes of well placed pieces are the pieces
- `fragments_texts`: and the fragments are the pieces with their categories
- `fragments_of_isDocument`: both hold of documents, and so of every text with the confidence of a
  document
-/

namespace Tinct.Lexer.JsonText

open Json

/-! ## Pieces as lexemes -/

open Piece

/-- The kind of lexeme that a piece is. -/
def kindOf : Piece → Kind
  | .blank _ => .blank
  | .mark c => if c = ':' then .colon else .punctuation
  | .constant _ => .constant
  | .number digits => if isFraction digits then .float else .integer
  | .string _ => .string
  | .name _ => .string

def lexemeOf (p : Piece) : Lexeme Kind := ⟨some (kindOf p), p.text⟩

/-- A piece is not empty, and only a blank starts like a blank. -/
theorem exists_text_eq_cons {p : Piece} (h : p.IsSpelled) :
    ∃ c tail, p.text = c :: tail ∧ isSpace c = p.isBlank := by
  -- a character that starts another kind of lexeme than blanks is no blank
  have hspace : ∀ {c kinds}, kindsFrom c = kinds → kinds ≠ [.blank] → isSpace c = false := by
    intro c kinds hkinds hne
    refine Bool.eq_false_iff.mpr fun hc => hne ?_
    rw [← hkinds, kindsFrom_space hc]
  cases p with
  | blank run =>
    obtain ⟨c, hc, rfl⟩ := h
    exact ⟨c, [], rfl, hc⟩
  | mark c => exact ⟨c, [], rfl, Token.isSpace_of_mem_marks c h⟩
  | constant word =>
    have hstart : ∀ word ∈ Spelling.constants, word.head?.map isSpace = some false := by decide
    have hstart := hstart word h
    cases word with
    | nil => cases hstart
    | cons c tail => exact ⟨c, tail, rfl, Option.some.inj hstart⟩
  | number digits =>
    obtain ⟨c, tail, rfl, hkinds⟩ := exists_cons_of_number h
    exact ⟨c, tail, rfl, hspace hkinds (by decide)⟩
  | string quoted =>
    obtain ⟨body, rfl, -⟩ := Spelling.matches_quotes_iff.mp h
    exact ⟨'"', _, rfl, rfl⟩
  | name quoted =>
    obtain ⟨body, rfl, -⟩ := Spelling.matches_quotes_iff.mp h
    exact ⟨'"', _, rfl, rfl⟩

/-- What is behind a value starts with a blank or a mark. -/
theorem endsWord_of_endsValue {behind : List Piece} (hplaced : WellPlaced behind)
    (h : EndsValue behind) : EndsWord (texts behind) := by
  intro d hd
  cases hplaced with
  | nil => cases hd
  | @cons p behind hspelled =>
    cases hblank : p.isBlank with
    -- a blank ends a word
    | true =>
      obtain ⟨c, tail, htext, hspace⟩ := exists_text_eq_cons hspelled
      rw [texts, List.flatMap_cons, htext] at hd
      cases hd
      exact List.mem_append_left _ (Token.mem_spaces_iff.mpr (hspace.trans hblank))
    -- and so does a mark, which is all that can come behind a value
    | false =>
      obtain ⟨c, -, rfl⟩ := h p (List.find?_cons_of_pos (by simp [hblank]))
      cases hd
      exact List.mem_append_right _ hspelled

/-- The blanks at the start of a row are written as blanks. -/
theorem isSpace_of_mem_takeWhile {ps : List Piece} (h : WellPlaced ps) :
    ∀ d ∈ texts (ps.takeWhile Piece.isBlank), isSpace d = true := by
  induction h with
  | nil => exact fun d hd => absurd hd List.not_mem_nil
  | @cons p behind hspelled _ _ ih =>
    cases p with
    | blank run =>
      obtain ⟨c, hc, rfl⟩ := hspelled
      exact List.forall_mem_cons.mpr ⟨hc, ih⟩
    | _ => exact fun d hd => absurd hd List.not_mem_nil

/-- And what is behind them is not. -/
theorem isSpace_of_head?_dropWhile {ps : List Piece} (h : WellPlaced ps) {d : Char}
    (hd : (texts (ps.dropWhile Piece.isBlank)).head? = some d) : isSpace d = false := by
  have hplaced := h.dropWhile Piece.isBlank
  have hnot := List.head?_dropWhile_not Piece.isBlank ps
  cases hdrop : ps.dropWhile Piece.isBlank with
  | nil =>
    rw [hdrop] at hd
    cases hd
  | cons p behind =>
    rw [hdrop] at hplaced hd hnot
    cases hplaced with
    | cons hspelled =>
      obtain ⟨c, tail, htext, hspace⟩ := exists_text_eq_cons hspelled
      rw [texts, List.flatMap_cons, htext] at hd
      cases hd
      rw [hspace]
      exact hnot

/-- The lexeme at the start of a piece that stands at a right place is this piece. -/
theorem next_piece {p : Piece} {behind : List Piece} (hspelled : p.IsSpelled)
    (hprecedes : p.Precedes behind) (hbehind : WellPlaced behind) (hblank : p.isBlank = false) :
    grammar.Next (p.text ++ texts behind) (lexemeOf p) := by
  cases p with
  | blank run => cases hblank
  | mark c => exact next_mark hspelled _
  | constant word => exact next_constant hspelled (endsWord_of_endsValue hbehind hprecedes)
  | number digits => exact next_number hspelled (endsWord_of_endsValue hbehind hprecedes)
  | string quoted => exact next_quoted hspelled _
  | name quoted => exact next_quoted hspelled _

/-- The lexemes of well placed pieces are the pieces, with runs of blanks as one. -/
theorem lexemes_texts {ps : List Piece} (h : WellPlaced ps) :
    grammar.lexemes (texts ps) = (joined ps).map lexemeOf := by
  fun_induction joined ps with
  | case1 => simp [texts, Grammar.lexemes]
  | case2 p rest hblank ih =>
    cases h with
    | cons hspelled _ hrest =>
      cases p with
      | blank run =>
        -- the run of blanks is one lexeme, since what is behind it is no blank
        obtain ⟨c, hc, rfl⟩ := hspelled
        have hnext := next_blank hc (isSpace_of_mem_takeWhile hrest) fun d hd =>
          isSpace_of_head?_dropWhile hrest hd
        have hsplit : texts (.blank [c] :: rest) =
            c :: texts (rest.takeWhile Piece.isBlank) ++ texts (rest.dropWhile Piece.isBlank) := by
          rw [List.cons_append, texts, texts, texts, ← List.flatMap_append,
            List.takeWhile_append_dropWhile]
          rfl
        rw [List.map_cons, ← ih (hrest.dropWhile _), hsplit]
        exact Grammar.lexemes_of_next (l := ⟨some Kind.blank, _⟩) hnext
      | _ => cases hblank
  | case3 p rest hblank ih =>
    cases h with
    | cons hspelled hprecedes hrest =>
      have hnext := next_piece hspelled hprecedes hrest (Bool.eq_false_iff.mpr hblank)
      rw [List.map_cons, ← ih hrest]
      exact Grammar.lexemes_of_next (l := lexemeOf p) hnext

/-- Blanks in front do not matter for the next piece. -/
theorem next?_dropWhile (ps : List Piece) : next? (ps.dropWhile Piece.isBlank) = next? ps := by
  induction ps with
  | nil => rfl
  | cons p ps ih =>
    cases hblank : p.isBlank with
    | true =>
      rw [List.dropWhile_cons_of_pos hblank, ih, next?, next?,
        List.find?_cons_of_neg (by simp [hblank])]
    | false => rw [List.dropWhile_cons_of_neg (by simp [hblank])]

/-- A colon follows exactly if it is the next piece. -/
theorem colonFollows_joined (ps : List Piece) :
    colonFollows ((joined ps).map lexemeOf) = true ↔ next? ps = some (.mark ':') := by
  fun_induction joined ps with
  | case1 => simp [colonFollows, next?]
  -- joined blanks are one lexeme, behind which the search goes on
  | case2 p rest hblank ih =>
    rw [next?_dropWhile] at ih
    rw [List.map_cons, next?, List.find?_cons_of_neg (by simp [hblank])]
    exact ih
  -- the first other piece decides
  | case3 p rest hblank ih =>
    rw [List.map_cons, next?, List.find?_cons_of_pos (by simp [hblank])]
    cases p with
    | blank run => exact absurd rfl hblank
    | mark c =>
      by_cases hc : c = ':'
      · simp [hc, colonFollows, lexemeOf, kindOf]
      · simp [hc, colonFollows, lexemeOf, kindOf]
    | number digits => by_cases hf : isFraction digits <;> simp [colonFollows, lexemeOf, kindOf, hf]
    | _ => simp [colonFollows, lexemeOf, kindOf]

/-- The category that the lexer gives a piece is the one that the grammar gives it. -/
theorem category_kindOf {p : Piece} {behind : List Piece} (hprecedes : p.Precedes behind) :
    JsonText.category (colonFollows ((joined behind).map lexemeOf)) (some (kindOf p)) =
      p.category := by
  cases p with
  | blank run => rfl
  | mark c => by_cases hc : c = ':' <;> simp [kindOf, hc, JsonText.category, Piece.category]
  | constant word => rfl
  | number digits =>
    by_cases hf : isFraction digits <;> simp [kindOf, hf, JsonText.category, Piece.category]
  | string quoted =>
    -- a colon cannot come behind a value
    have hcolon : colonFollows ((joined behind).map lexemeOf) = false := by
      refine Bool.eq_false_iff.mpr fun h => ?_
      obtain ⟨c, hc, hmark⟩ := hprecedes _ ((colonFollows_joined behind).mp h)
      exact hc (Piece.mark.inj hmark).symm
    rw [hcolon]
    rfl
  | name quoted =>
    rw [(colonFollows_joined behind).mpr hprecedes]
    rfl

/-- The fragments of the lexemes of a document are those of its pieces. -/
theorem classify_joined {ps : List Piece} (h : WellPlaced ps) :
    classify ((joined ps).map lexemeOf) = (joined ps).map fragment := by
  fun_induction joined ps with
  | case1 => rfl
  | case2 p rest hblank ih =>
    cases h with
    | cons _ _ hrest =>
      rw [List.map_cons, classify, ih (hrest.dropWhile _)]
      rfl
  | case3 p rest hblank ih =>
    cases h with
    | cons hspelled hprecedes hrest =>
      rw [List.map_cons, classify, ih hrest, List.map_cons, lexemeOf, category_kindOf hprecedes]
      rfl

/-- The fragments of a document are its pieces, with runs of blanks as one. -/
theorem fragments_texts {ps : List Piece} (h : WellPlaced ps) :
    json.fragments (String.ofList (texts ps)) = (joined ps).map fragment := by
  show classify (grammar.lexemes (String.ofList (texts ps)).toList) = _
  rw [String.toList_ofList, lexemes_texts h, classify_joined h]

/-! ## Documents -/

/-- Only documents get the confidence of documents. -/
theorem exists_isDocument_of_confidence {source : String}
    (h : json.confidence source = .hundredths 90) :
    ∃ ps, IsDocument ps ∧ String.ofList (texts ps) = source := by
  have hdocument : isDocument source = true := by
    change confidence source = _ at h
    -- every other branch gives another score
    unfold confidence at h
    split at h
    · split at h
      · split at h
        · assumption
        · cases h
      · cases h
    · cases h
  unfold isDocument at hdocument
  cases hparse : parse? source with
  | none =>
    rw [hparse] at hdocument
    cases hdocument
  | some v => exact exists_isDocument_of_parse? hparse

/-- The categories of the pieces that are not names. -/
private def otherKeys : List String :=
  ["Text.Whitespace", "Punctuation", "Keyword.Constant", "Literal.Number.Float",
    "Literal.Number.Integer", "Literal.String.Double"]

/-- Every piece but the name of a member has another category. -/
private theorem exists_key_of_category {p : Piece} (hp : ¬ ∃ quoted, p = .name quoted) :
    ∃ key ∈ otherKeys, p.category = .ofKey key := by
  cases p with
  | blank run => exact ⟨"Text.Whitespace", by simp [otherKeys], rfl⟩
  | mark c => exact ⟨"Punctuation", by simp [otherKeys], rfl⟩
  | constant word => exact ⟨"Keyword.Constant", by simp [otherKeys], rfl⟩
  | number digits =>
    by_cases hfraction : isFraction digits = true
    · exact ⟨"Literal.Number.Float", by simp [otherKeys], if_pos hfraction⟩
    · exact ⟨"Literal.Number.Integer", by simp [otherKeys], if_neg hfraction⟩
  | string quoted => exact ⟨"Literal.String.Double", by simp [otherKeys], rfl⟩
  | name quoted => exact absurd ⟨quoted, rfl⟩ hp

/-- No piece is an error, and only names have the category of names. -/
theorem category_spec (p : Piece) : p.category ≠ .ofKey "Error" ∧
    (p.category = .ofKey "Name.Tag" ↔ ∃ quoted, p = .name quoted) := by
  by_cases hname : ∃ quoted, p = .name quoted
  · obtain ⟨quoted, rfl⟩ := hname
    have hne : Category.ofKey "Name.Tag" ≠ .ofKey "Error" := by decide
    exact ⟨hne, fun _ => ⟨quoted, rfl⟩, fun _ => rfl⟩
  · have hne : ∀ key ∈ otherKeys,
        Category.ofKey key ≠ .ofKey "Error" ∧ Category.ofKey key ≠ .ofKey "Name.Tag" := by decide
    obtain ⟨key, hkey, hcategory⟩ := exists_key_of_category hname
    rw [hcategory]
    exact ⟨(hne key hkey).1, fun h => absurd h (hne key hkey).2, fun h => absurd h hname⟩

/-- The fragments of a document are its scalars and structural characters, one fragment each, and
    its runs of blanks, in order and with the categories of the pieces: there are no errors, and of
    the strings exactly those that the grammar derives as names of members are tagged as names.
    Every text with the confidence of a document is a document. -/
theorem fragments_of_isDocument :
    (∀ ps, IsDocument ps →
      json.fragments (String.ofList (texts ps)) = (joined ps).map fragment ∧
        ∀ p ∈ joined ps, p.category ≠ .ofKey "Error" ∧
          (p.category = .ofKey "Name.Tag" ↔ ∃ quoted, p = .name quoted)) ∧
    ∀ source, json.confidence source = .hundredths 90 →
      ∃ ps, IsDocument ps ∧ String.ofList (texts ps) = source := by
  refine ⟨fun ps h => ?_, fun source h => exists_isDocument_of_confidence h⟩
  exact ⟨fragments_texts (wellPlaced_of_isDocument h), fun p _ => category_spec p⟩

/-- A member with blanks around its colon, and an empty array. -/
theorem fragments_of_isDocument_member :
    json.fragments "\x7b\"a\" : \"b\"\x7d" =
        [⟨.ofKey "Punctuation", "\x7b"⟩, ⟨.ofKey "Name.Tag", "\"a\""⟩,
          ⟨.ofKey "Text.Whitespace", " "⟩, ⟨.ofKey "Punctuation", ":"⟩,
          ⟨.ofKey "Text.Whitespace", " "⟩,
          ⟨.ofKey "Literal.String.Double", "\"b\""⟩, ⟨.ofKey "Punctuation", "\x7d"⟩] ∧
      ∃ ps, IsDocument ps ∧ String.ofList (texts ps) = "[]" := by
  have hblank : Blanks [.blank [' ']] :=
    fun p hp => ⟨' ', rfl, List.mem_singleton.mp hp⟩
  have hvalue : Derives .value [.string "\"b\"".toList] := .string (by decide)
  have hname : Spelling.string.Matches "\"a\"".toList := by decide
  have hmember := Derives.member hname (.named (.intro (c := ':') hblank hblank) hvalue)
  have hobject := Derives.bracket (b := .object) (.cons blanks_nil)
    (.first hmember (.last (.cons blanks_nil)))
  have hdocument := IsDocument.intro blanks_nil hobject blanks_nil
  obtain ⟨hfragments, hconfidence⟩ := fragments_of_isDocument
  refine ⟨(hfragments _ hdocument).1.trans ?_, hconfidence "[]" (by decide +kernel)⟩
  decide +kernel

end Tinct.Lexer.JsonText
