import Tinct.Proofs.PythonLexemes

/-!
# The categories of Python words

A word is never cut in two: where a fragment starts like a name and is no string literal, it is the
longest run of letters, digits and underscores at its place.  Its category is settled by the word
itself and by one other fragment, the nearest one before it that is not blank: reserved words come
first, then the name that a definition introduces, then the tables of built-in names.

## Key results

- `pendingAfter_eq`: the category that waits for a name is settled by the nearest fragment that is
  not blank
- `fragmentOf_word`: the category of a word, as the tables and that fragment give it
- `Lexer.words_classified`: the text and the category of every word
-/

namespace Tinct

/-- Whether a fragment is a run of blanks. -/
def Fragment.isBlank (f : Fragment) : Bool := f.text.toList.all Lexer.Python.isBlankChar

/-- Whether a fragment starts like a name. -/
def Fragment.startsWord (f : Fragment) : Bool := f.text.toList.head?.any Lexer.Python.startsName

namespace Lexer

namespace Python

/-! ## The category of a word -/

/-- The category of a reserved word. -/
def reservedCategory? (word : String) : Option Category :=
  if word = "def" then some (.ofKey "Keyword")
  else if word = "class" then some (.ofKey "Keyword")
  else if word ∈ importWords then some (.ofKey "Keyword.Namespace")
  else if word ∈ operatorWords then some (.ofKey "Operator.Word")
  else if word ∈ keywords then some (.ofKey "Keyword")
  else if word ∈ constants then some (.ofKey "Keyword.Constant")
  else none

/-- The category of a name behind a fragment with the given text. -/
def definedCategory? (before : Option String) : Option Category :=
  if before = some "def" then some (.ofKey "Name.Function")
  else if before = some "class" then some (.ofKey "Name.Class")
  else none

/-- The category of a built-in name. -/
def builtinCategory? (word : String) : Option Category :=
  if word ∈ builtins then some (.ofKey "Name.Builtin")
  else if word ∈ pseudoBuiltins then some (.ofKey "Name.Builtin.Pseudo")
  else none

/-- The category of a word, given the text of the nearest fragment before it that is not blank. -/
def wordCategory (before : Option String) (word : String) : Category :=
  (((reservedCategory? word).or (definedCategory? before)).or (builtinCategory? word)).getD
    (.ofKey "Name")

/-- The text of the last fragment that is not blank. -/
def nearestText? (before : List Fragment) : Option String :=
  (before.filter (!·.isBlank)).getLast?.map (·.text)

/-- The last fragment is nearest, unless it is blank. -/
theorem nearestText?_concat (before : List Fragment) (f : Fragment) :
    nearestText? (before ++ [f]) = if f.isBlank then nearestText? before else some f.text := by
  rw [nearestText?, List.filter_append]
  cases h : f.isBlank
  · simp [h]
  · simp [h, nearestText?]

/-! ## What is pending -/

/-- What waits for a name is settled by the nearest fragment that is not blank: it is kept over
    blanks, set by a definition word and taken back by everything else. -/
theorem pendingAfter_eq {front : List (Lexeme Kind)}
    (h : ∀ l ∈ front, ∃ rest, grammar.Next rest l) :
    pendingAfter front = definedCategory? (nearestText? (classify none front)) := by
  induction front using List.reverseRecOn with
  | nil => rfl
  | append_singleton front l ih =>
    have hfront := ih fun m hm => h m (List.mem_append_left _ hm)
    obtain ⟨rest, hnext⟩ := h l (by simp)
    -- a fragment is blank if its lexeme is, so both sides pass over the same ones
    have hblank : (fragmentOf (pendingAfter front) l).isBlank = decide (l.kind = some .blank) := by
      rw [Fragment.isBlank, fragmentOf, String.toList_ofList, Bool.eq_iff_iff, decide_eq_true_iff]
      exact (kind_eq_blank_iff hnext).symm
    rw [pendingAfter_concat, classify_concat, nearestText?_concat, hblank]
    unfold defines
    split
    · rename_i hkind
      simp [hkind, fragmentOf, (kind_eq_function_iff hnext).mp hkind, definedCategory?]
    · rename_i hkind
      simp [hkind, fragmentOf, (kind_eq_classWord_iff hnext).mp hkind, definedCategory?]
    · rename_i hkind
      simp [hkind, hfront]
    · -- a lexeme of another kind is neither blank nor one of the two words
      rename_i hfunction hclass hother
      simp [fragmentOf, definedCategory?, mt (kind_eq_function_iff hnext).mpr hfunction,
        mt (kind_eq_classWord_iff hnext).mpr hclass, show ¬ l.kind = some .blank from hother]

/-! ## Words -/

/-- The kind of a reserved word is no name, and has the category of the reserved word. -/
theorem category_of_reserved {word : String} {c : Category} (h : reservedCategory? word = some c) :
    isNameLike (some (wordKind word)) = false ∧ category (some (wordKind word)) = c := by
  unfold reservedCategory? at h
  unfold wordKind
  split_ifs at h ⊢ <;> exact ⟨rfl, Option.some.inj h⟩

/-- The kind of any other word is a name, and has the category of the built-in name, if it is one. -/
theorem category_of_not_reserved {word : String} (h : reservedCategory? word = none) :
    isNameLike (some (wordKind word)) = true ∧
      category (some (wordKind word)) = (builtinCategory? word).getD (.ofKey "Name") := by
  unfold reservedCategory? at h
  unfold wordKind builtinCategory?
  split_ifs at h ⊢ <;> exact ⟨rfl, rfl⟩

/-- The category of a word, as the tables and the fragment before it give it. -/
theorem fragmentOf_word {pending : Option Category} {before : Option String}
    (hpending : pending = definedCategory? before) {l : Lexeme Kind}
    (hkind : l.kind = some (wordKind (String.ofList l.text))) :
    (fragmentOf pending l).category = wordCategory before (String.ofList l.text) := by
  rw [fragmentOf, hkind, hpending, wordCategory]
  generalize String.ofList l.text = word
  cases hreserved : reservedCategory? word with
  | some c =>
    obtain ⟨hname, hcategory⟩ := category_of_reserved hreserved
    simp [hname, hcategory]
  | none =>
    obtain ⟨hname, hcategory⟩ := category_of_not_reserved hreserved
    cases definedCategory? before <;> simp [hname, hcategory]

/-- No kind has one of the categories that definitions give. -/
theorem category_ne_definition (kind : Option Kind) :
    category kind ≠ .ofKey "Name.Function" ∧ category kind ≠ .ofKey "Name.Class" := by
  rcases kind with _ | kind
  · decide +kernel
  · cases kind with
    | string form => cases form <;> decide +kernel
    | _ => decide +kernel

/-- So only a name is given such a category, and only if a definition waits for it. -/
theorem of_category_eq_definition {pending : Option Category} {l : Lexeme Kind} {c : Category}
    (hc : c = .ofKey "Name.Function" ∨ c = .ofKey "Name.Class")
    (h : (fragmentOf pending l).category = c) : isNameLike l.kind = true ∧ pending = some c := by
  -- no kind has the category of a definition as its own
  have hown : category l.kind ≠ c := by
    rcases hc with rfl | rfl
    · exact (category_ne_definition l.kind).1
    · exact (category_ne_definition l.kind).2
  by_cases hname : isNameLike l.kind = true
  · rw [fragmentOf, if_pos hname] at h
    refine ⟨hname, ?_⟩
    cases pending with
    | none => exact absurd h hown
    | some d => exact congrArg some h
  · rw [fragmentOf, if_neg hname] at h
    exact absurd h hown

/-- What is like a name is a word. -/
theorem isWord_of_isNameLike {kind : Kind} (h : isNameLike (some kind) = true) :
    isWord kind = true := by
  cases kind with
  | name | builtin | pseudoBuiltin => rfl
  | _ => cases h

/-- A name that a definition introduces is a word that is not reserved. -/
theorem not_reserved_of_isNameLike {rest : List Char} {l : Lexeme Kind} (h : grammar.Next rest l)
    (hname : isNameLike l.kind = true) :
    isName l.text = true ∧ reservedCategory? (String.ofList l.text) = none := by
  rcases hkind : l.kind with _ | kind
  · rw [hkind] at hname
    cases hname
  rw [hkind] at hname
  obtain ⟨hword, htable⟩ := isName_of_next h hkind (isWord_of_isNameLike hname)
  refine ⟨hword, Option.eq_none_iff_forall_ne_some.mpr fun c hreserved => ?_⟩
  have hnot := (category_of_reserved hreserved).1
  rw [← htable, hname] at hnot
  cases hnot

/-- A function is defined behind its word. -/
theorem definedCategory?_eq_function_iff {before : Option String} :
    definedCategory? before = some (.ofKey "Name.Function") ↔ before = some "def" := by
  have hne : Category.ofKey "Name.Class" ≠ .ofKey "Name.Function" := by decide +kernel
  unfold definedCategory?
  split_ifs with hdef hclass <;> simp_all

/-- A class is defined behind its word. -/
theorem definedCategory?_eq_class_iff {before : Option String} :
    definedCategory? before = some (.ofKey "Name.Class") ↔ before = some "class" := by
  have hne : Category.ofKey "Name.Function" ≠ .ofKey "Name.Class" := by decide +kernel
  unfold definedCategory?
  split_ifs with hdef hclass <;> simp_all

end Python

/-- A fragment that starts like a name and is no string literal is the longest run of letters,
    digits and underscores at its place, and its category is that of the word: the one of a
    reserved word, else the one that a definition word before it gives, else the one of a built-in
    name, else that of names.  The categories of definitions are given only in this way. -/
theorem words_classified {source : String} {before after : List Fragment} {f : Fragment}
    (h : python.fragments source = before ++ f :: after) :
    (f.startsWord = true → f.category ∉ Python.stringCategories →
      f.text.toList = ((f :: after).flatMap (·.text.toList)).takeWhile Python.continuesName ∧
      f.category = Python.wordCategory (Python.nearestText? before) f.text) ∧
    (f.category = .ofKey "Name.Function" → f.startsWord = true ∧
      Python.reservedCategory? f.text = none ∧ Python.nearestText? before = some "def") ∧
    (f.category = .ofKey "Name.Class" → f.startsWord = true ∧
      Python.reservedCategory? f.text = none ∧ Python.nearestText? before = some "class") := by
  -- the fragment is that of a lexeme `l`, and the fragments before it are those of `front`
  obtain ⟨front, l, rfl, rfl, back, hlexemes, htexts⟩ := Python.exists_lexeme h
  have hnext := Grammar.next_of_lexemes_eq hlexemes
  have hfront : ∀ m ∈ front, ∃ rest, Python.grammar.Next rest m := by
    intro m hm
    obtain ⟨first, others, rfl⟩ := List.append_of_mem hm
    exact ⟨_, Grammar.next_of_lexemes_eq (hlexemes.trans (List.append_assoc first (m :: others) _))⟩
  -- what is pending is told by the nearest fragment that is not blank
  have hpending := Python.pendingAfter_eq hfront
  have htext : (Python.fragmentOf (Python.pendingAfter front) l).text.toList = l.text :=
    String.toList_ofList
  obtain ⟨c, tail, hcons⟩ := List.exists_cons_of_ne_nil hnext.text_ne_nil
  -- the category of a definition is given to names only, and only if it is pending
  have hdefinition : ∀ d, d = .ofKey "Name.Function" ∨ d = .ofKey "Name.Class" →
      (Python.fragmentOf (Python.pendingAfter front) l).category = d →
      (Python.fragmentOf (Python.pendingAfter front) l).startsWord = true ∧
        Python.reservedCategory? (String.ofList l.text) = none ∧
        Python.definedCategory? (Python.nearestText? (Python.classify none front)) = some d := by
    intro d hd hcategory
    obtain ⟨hname, hwaiting⟩ := Python.of_category_eq_definition hd hcategory
    obtain ⟨hword, hreserved⟩ := Python.not_reserved_of_isNameLike hnext hname
    refine ⟨?_, hreserved, hpending ▸ hwaiting⟩
    rw [hcons] at hword
    rw [Fragment.startsWord, htext, hcons]
    exact (Python.isName_cons_iff.mp hword).1
  refine ⟨fun hstarts hstring => ?_, fun hcategory => ?_, fun hcategory => ?_⟩
  · rw [Fragment.startsWord, htext, hcons] at hstarts
    -- outside literals the lexeme is the run of name characters
    have hquotes : ∀ kind, l.kind = some kind → Python.isString kind = false := by
      intro kind hkind
      cases kind with
      | string form =>
        -- a literal would have the category of one
        have hown : (Python.fragmentOf (Python.pendingAfter front) l).category =
            Python.category l.kind := by
          rw [Python.fragmentOf, hkind]
          rfl
        exact absurd (hown ▸ Python.category_mem_stringCategories_iff.mpr ⟨form, hkind⟩) hstring
      | _ => rfl
    rw [htexts, htext]
    rw [List.flatMap_cons, hcons, List.cons_append] at hnext ⊢
    obtain ⟨hrun, hkind⟩ := Python.word_of_next hnext hstarts hquotes
    rw [hcons] at hrun
    exact ⟨hrun, Python.fragmentOf_word hpending hkind⟩
  · -- the two kinds of definitions, by their words
    obtain ⟨hstarts, hreserved, hnearest⟩ := hdefinition _ (.inl rfl) hcategory
    exact ⟨hstarts, hreserved, Python.definedCategory?_eq_function_iff.mp hnearest⟩
  · obtain ⟨hstarts, hreserved, hnearest⟩ := hdefinition _ (.inr rfl) hcategory
    exact ⟨hstarts, hreserved, Python.definedCategory?_eq_class_iff.mp hnearest⟩

/-- A definition word behind another one is reserved, and the name behind it is built-in otherwise. -/
theorem words_classified_of_class :
    let before : List Fragment := [⟨.ofKey "Keyword", "def"⟩, ⟨.ofKey "Text.Whitespace", " "⟩,
      ⟨.ofKey "Keyword", "class"⟩, ⟨.ofKey "Text.Whitespace", "\t "⟩]
    let f : Fragment := ⟨.ofKey "Name.Class", "self"⟩
    python.fragments "def class\t self'" = before ++ f :: [⟨.ofKey "Literal.String.Single", "'"⟩] ∧
      f.startsWord = true ∧ f.category ∉ Python.stringCategories ∧
      f.text.toList = "self'".toList.takeWhile Python.continuesName ∧
      f.category = Python.wordCategory (Python.nearestText? before) "self" := by
  intro before f
  have hsplit : python.fragments "def class\t self'" =
      before ++ f :: [⟨.ofKey "Literal.String.Single", "'"⟩] := by
    decide +kernel
  have hstarts : f.startsWord = true := by decide
  have hstring : f.category ∉ Python.stringCategories := by decide +kernel
  -- the run ends in front of the quote
  have hrest : [f, ⟨.ofKey "Literal.String.Single", "'"⟩].flatMap (·.text.toList) =
      "self'".toList := by
    decide
  obtain ⟨hrun, hcategory⟩ := (words_classified hsplit).1 hstarts hstring
  rw [hrest] at hrun
  exact ⟨hsplit, hstarts, hstring, hrun, hcategory⟩

end Lexer

end Tinct
