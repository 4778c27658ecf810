import Tinct.Proofs.CategoryHierarchy
import Tinct.Proofs.JsonRecords
import Tinct.Proofs.JsonRoundTrip
import Tinct.Proofs.Reconstruction

/-!
# Token files are read back

A token file holds a listing as JSON.  The contents of the tokens come back as they were, whatever
their characters; of a category only the key is written, so it comes back if its key can be read.

## Key results

- `Category.ofKey_key_ofKey_iff`: the categories, among those read from keys, that are read back
- `read?_print`: a token file holds the listing with its categories read from their keys
- `read?_print_eq_iff`: the listings that are read back
- `isReadable_of_tokenize`: the categories that the built-in lexers give can be read
- `read?_print_built`: both, for categories that are built from texts
-/

namespace Tinct

/-! ## Reading categories -/

namespace Category

/-- A category that is read back from its key. -/
def IsReadable (c : Category) : Prop := ofKey c.key = c

/-- A category that is read from a key can be read again, unless it starts with `Token`. -/
theorem isReadable_ofKey {key : String} (h : (ofKey key).segments.head? ≠ some "Token") :
    (ofKey key).IsReadable :=
  ofKey_key (isPlain_ofKey key) h

/-- A category that is written as JSON is read as what its key is read as. -/
theorem ofJson?_parse?_print (c : Category) (layout : Json.Layout) :
    (Json.parse? (c.toJson.print layout)).bind ofJson? = some (ofKey c.key) := by
  rw [toJson, Json.parse?_print (Json.isPlain_ofString c.key), Option.bind_some, ofJson?,
    Json.text?_ofString]
  rfl

/-- A category that is read from a key is written and read back as itself exactly if the parts of the
    key do not start with `Token` twice.  If they do, the second `Token` is lost with its first
    writing.  The JSON form of the category is read back as its key is, in both layouts. -/
theorem ofKey_key_ofKey_iff (key : String) :
    (ofKey (ofKey key).key = ofKey key ↔ ¬ ["Token", "Token"] <+: keyParts key) ∧
    (∀ rest, keyParts key = "Token" :: "Token" :: rest →
      ofKey key = ⟨"Token" :: rest⟩ ∧ ofKey (ofKey key).key = ⟨rest⟩) ∧
    ∀ layout, (Json.parse? ((ofKey key).toJson.print layout)).bind ofJson? =
      some (ofKey (ofKey key).key) := by
  have hplain := isPlain_ofKey key
  refine ⟨?_, fun rest hparts => ?_, ofJson?_parse?_print (ofKey key)⟩
  · -- a key is read without its first `Token`, so two of them are needed for one to be left
    rw [ofKey_key_eq_iff fun s hs => (hplain s hs).1, ← head?_segments_ofKey_iff]
    constructor
    · intro h
      exact h.2
    · intro hhead
      exact ⟨fun s hs => (hplain s hs).2, hhead⟩
  · have hread : ofKey key = ⟨"Token" :: rest⟩ := by
      rw [ofKey, hparts]
      rfl
    rw [hread] at hplain ⊢
    exact ⟨rfl, ofKey_key_token hplain⟩

/-- Written and read back, `Token.Name` below the root becomes `Name`. -/
theorem ofKey_key_ofKey_ne_of_token :
    ofKey (ofKey "Token.Token.Name").key ≠ ofKey "Token.Token.Name" ∧
      (Json.parse? ((ofKey "Token.Token.Name").toJson.print .compact)).bind ofJson? =
        some ⟨["Name"]⟩ := by
  refine ⟨by decide, ?_⟩
  rw [ofJson?_parse?_print]
  decide

end Category

/-! ## Reading tokens and listings -/

namespace Token

/-- The token with the category that its key is read as. -/
def rekeyed (t : Token) : Token := { t with category := .ofKey t.category.key }

/-- A token is written with characters only. -/
theorem isPlain_toJson (t : Token) : t.toJson.isPlain = true := by
  refine Json.isPlain_ofMembers fun m hm => ?_
  rcases List.mem_pair.mp hm with rfl | rfl
  · exact Json.isPlain_ofString t.content
  · exact Json.isPlain_ofString t.category.key

/-- A token is read back with the category of its key. -/
theorem ofJson?_toJson (t : Token) : ofJson? t.toJson = some t.rekeyed := by
  have hrecord : t.toJson.record? ["content", "type"] =
      some [some (.ofString t.content), some t.category.toJson] :=
    Json.record?_ofMembers [("content", .ofString t.content), ("type", t.category.toJson)]
      (show ["content", "type"].Nodup by decide)
  rw [ofJson?, hrecord]
  simp only [Category.ofJson?, Category.toJson, Json.text?_ofString]
  rfl

end Token

namespace Listing

/-- The listing with the categories that its keys are read as. -/
def rekeyed (l : Listing) : Listing := ⟨l.lines.map (·.map Token.rekeyed)⟩

/-- A listing is written with characters only. -/
theorem isPlain_toJson (l : Listing) : l.toJson.isPlain = true := by
  refine Json.isPlain_array fun v hv => ?_
  obtain ⟨line, -, rfl⟩ := List.mem_map.mp hv
  refine Json.isPlain_array fun w hw => ?_
  obtain ⟨t, -, rfl⟩ := List.mem_map.mp hw
  exact t.isPlain_toJson

/-- A listing is read back with the categories of their keys. -/
theorem ofJson?_toJson (l : Listing) : ofJson? l.toJson = some l.rekeyed := by
  have hline : ∀ line : Line, (line.map Token.toJson).mapM Token.ofJson? =
      some (line.map Token.rekeyed) :=
    fun line => mapM_map_of_read fun t _ => t.ofJson?_toJson
  have hlines : (l.lines.map fun line => Json.array (line.map Token.toJson)).mapM
      (fun v => do (← v.items?).mapM Token.ofJson?) =
        some (l.lines.map (·.map Token.rekeyed)) :=
    mapM_map_of_read fun line _ => hline line
  rw [ofJson?, toJson, Json.items?, Option.bind_eq_bind, Option.bind_some, hlines]
  rfl

/-- A token file holds the listing with its categories read from their keys. -/
theorem read?_print (s : Session) (l : Listing) : read? (s.print l.toJson) = some l.rekeyed := by
  rw [read?, Session.print, Json.parse?_print l.isPlain_toJson]
  exact l.ofJson?_toJson

/-- Every category of the listing is read back from its key. -/
def IsReadable (l : Listing) : Prop := ∀ line ∈ l.lines, ∀ t ∈ line, t.category.IsReadable

/-- A listing stays the same by its keys exactly if it can be read. -/
theorem rekeyed_eq_iff {l : Listing} : l.rekeyed = l ↔ l.IsReadable := by
  have htoken : ∀ t : Token, t.rekeyed = t ↔ t.category.IsReadable := by
    intro t
    cases t
    simp [Token.rekeyed, Category.IsReadable]
  have hmap : ∀ {α : Type} {f : α → α} {xs : List α}, xs.map f = xs ↔ ∀ x ∈ xs, f x = x := by
    intro α f xs
    conv_lhs => rw [← List.map_id xs, List.map_map]
    exact List.map_inj_left
  obtain ⟨lines⟩ := l
  simp only [rekeyed, mk.injEq, hmap, htoken, IsReadable]

/-- A printed listing is read back exactly if it can be. -/
theorem read?_print_eq_iff (s : Session) (l : Listing) :
    read? (s.print l.toJson) = some l ↔ l.IsReadable := by
  rw [read?_print, Option.some_inj, rekeyed_eq_iff]

end Listing

/-! ## Categories of the built-in lexers -/

/-- Every category that the lexer gives can be read from its key. -/
def Lexer.GivesReadable (lexer : Lexer) : Prop :=
  ∀ source, ∀ f ∈ lexer.fragments source, f.category.IsReadable

namespace Lexer

/-- All Python categories can be read. -/
private theorem isReadable_python (kind : Option Python.Kind) :
    (Python.category kind).IsReadable := by
  rcases kind with _ | kind
  · exact Category.isReadable_ofKey (by decide +kernel)
  · cases kind with
    | string quotes => cases quotes <;> exact Category.isReadable_ofKey (by decide +kernel)
    | _ => exact Category.isReadable_ofKey (by decide +kernel)

/-- The category that a definition gives to the name behind it can be read, too. -/
private theorem isReadable_classify_python {pending : Option Category}
    (hpending : ∀ c ∈ pending, c.IsReadable) (lexemes : List (Lexeme Python.Kind)) :
    ∀ f ∈ Python.classify pending lexemes, f.category.IsReadable := by
  -- what is pending changes at every lexeme, but can always be read
  induction lexemes generalizing pending with
  | nil => exact fun f hf => absurd hf List.not_mem_nil
  | cons l rest ih =>
    have hdefines : ∀ c ∈ Python.defines pending l.kind, c.IsReadable := by
      unfold Python.defines
      split
      · rintro c ⟨⟩
        exact Category.isReadable_ofKey (by decide +kernel)
      · rintro c ⟨⟩
        exact Category.isReadable_ofKey (by decide +kernel)
      · exact hpending
      · exact nofun
    -- a name gets what is pending, any other lexeme the category of its kind
    have hgiven : (if Python.isNameLike l.kind then pending.getD (Python.category l.kind)
        else Python.category l.kind).IsReadable := by
      split
      · cases pending with
        | none => exact isReadable_python l.kind
        | some c => exact hpending c rfl
      · exact isReadable_python l.kind
    intro f hf
    rcases List.mem_cons.mp hf with rfl | hrest
    · exact hgiven
    · exact ih hdefines f hrest

/-- All JSON categories can be read. -/
private theorem isReadable_json (namesMember : Bool) (kind : Option JsonText.Kind) :
    (JsonText.category namesMember kind).IsReadable := by
  rcases kind with _ | kind
  · exact Category.isReadable_ofKey (by decide +kernel)
  · cases kind with
    | string => cases namesMember <;> exact Category.isReadable_ofKey (by decide +kernel)
    | _ => exact Category.isReadable_ofKey (by decide +kernel)

/-- The fragments of JSON have categories that can be read. -/
private theorem isReadable_classify_json (lexemes : List (Lexeme JsonText.Kind)) :
    ∀ f ∈ JsonText.classify lexemes, f.category.IsReadable := by
  induction lexemes with
  | nil => exact fun f hf => absurd hf List.not_mem_nil
  | cons l rest ih =>
    intro f hf
    rcases List.mem_cons.mp hf with rfl | hrest
    · exact isReadable_json _ l.kind
    · exact ih f hrest

/-- The lexers from the start give categories that can be read. -/
theorem givesReadable_of_mem_builtin {lexer : Lexer}
    (h : lexer ∈ Lexers.builtin.byName.values) : lexer.GivesReadable := by
  intro source f hf
  rcases mem_builtin_iff.mp h with rfl | rfl | rfl
  · exact isReadable_classify_json _ f hf
  · exact isReadable_classify_python (fun c hc => absurd hc (Option.not_mem_none c)) _ f hf
  · have hf : f ∈ if source = "" then [] else [⟨.ofKey "Text", source⟩] := hf
    split at hf
    · cases hf
    · obtain rfl := List.mem_singleton.mp hf
      exact Category.isReadable_ofKey (by decide +kernel)

end Lexer

/-! ## Categories of listings -/

/-- A token of a text has the category of the text. -/
theorem Event.category_of_mem_ofChars {category : Category} {text : List Char} {t : Token}
    (h : token t ∈ ofChars category text) : t.category = category := by
  fun_induction ofChars category text with
  | case1 => cases h
  | case2 rest ih =>
    rcases List.mem_cons.mp h with hfirst | hrest
    · cases hfirst
    · exact ih hrest
  | case3 c rest hc ih =>
    rcases List.mem_cons.mp h with hfirst | hrest
    · rw [Event.token.inj hfirst]
    · exact ih hrest

namespace Listing

/-- The tokens of a listing have the categories of the fragments. -/
theorem exists_fragment_of_mem {fragments : List Fragment} {line : Line} {t : Token}
    (hline : line ∈ (ofFragments fragments).lines) (ht : t ∈ line) :
    ∃ f ∈ fragments, t.category = f.category := by
  rw [lines_ofFragments, Event.lines] at hline
  split at hline
  · cases hline
  · have hevent := mem_of_mem_withoutFinal (Event.token_mem_of_mem_cut hline ht)
    obtain ⟨f, hf, hchars⟩ := List.mem_flatMap.mp hevent
    exact ⟨f, hf, Event.category_of_mem_ofChars hchars⟩

/-- With the lexers from the start, every listing can be read. -/
theorem isReadable_of_tokenize {s : Session} (hs : s.lexers = .builtin) {source : String}
    {choice : LexerChoice} {l : Listing} (h : s.tokenize source choice = .ok l) :
    l.IsReadable := by
  rw [Session.tokenize] at h
  cases hselect : s.select source choice with
  | error e =>
    rw [hselect] at h
    cases h
  | ok lexer =>
    rw [hselect] at h
    obtain rfl := Except.ok.inj h
    have hlexer : lexer ∈ Lexers.builtin.byName.values := by
      -- a text that no lexer is found for is plain text
      rcases Session.mem_of_select hselect with hmem | rfl
      · exact hs ▸ hmem
      · exact Lexer.mem_builtin_iff.mpr (.inr (.inr rfl))
    intro line hline t ht
    -- a token has the category of a fragment of the lexer
    obtain ⟨f, hf, hcategory⟩ := exists_fragment_of_mem hline ht
    rw [hcategory]
    exact Lexer.givesReadable_of_mem_builtin hlexer _ f hf

/-- A listing whose categories are built by the operations on categories is read back from its
    token file, in either layout, exactly if no segment of a category has a dot and no category
    starts with `Token`; the contents of the tokens play no part.  Every listing that the built-in
    lexers lead to is read back. -/
theorem read?_print_built :
    (∀ (s : Session) (l : Listing), (∀ line ∈ l.lines, ∀ t ∈ line, t.category.IsBuilt) →
      (read? (s.print l.toJson) = some l ↔
        ∀ line ∈ l.lines, ∀ t ∈ line,
          (∀ segment ∈ t.category.segments, '.' ∉ segment.toList) ∧
            t.category.segments.head? ≠ some "Token")) ∧
    ∀ (s : Session) (source : String) (choice : LexerChoice) (l : Listing),
      s.lexers = .builtin → s.tokenize source choice = .ok l →
        ∀ s' : Session, read? (s'.print l.toJson) = some l := by
  constructor
  · intro s l hbuilt
    rw [read?_print_eq_iff]
    -- both sides speak of one token at a time
    refine forall₂_congr fun line hline => forall₂_congr fun t ht => ?_
    exact Category.ofKey_key_eq_iff (hbuilt line hline t ht).segment_ne_empty
  · intro s source choice l hs htokenize s'
    exact (read?_print_eq_iff s' l).mpr (isReadable_of_tokenize hs htokenize)

/-- A token with a quote and a control character, one whose category has a dot in a segment, and a
    text that is taken as plain text. -/
theorem read?_print_built_of_quote :
    read? (({} : Session).print (toJson ⟨[[⟨"\"\x01😀", .ofKey "Keyword"⟩], []]⟩)) =
        some ⟨[[⟨"\"\x01😀", .ofKey "Keyword"⟩], []]⟩ ∧
      read? (({} : Session).print (toJson ⟨[[⟨"", .ofSegments ["a.b"]⟩]]⟩)) ≠
        some ⟨[[⟨"", .ofSegments ["a.b"]⟩]]⟩ ∧
      read? (({} : Session).print (toJson ⟨[[⟨"a", .ofKey "Text"⟩]]⟩)) =
        some ⟨[[⟨"a", .ofKey "Text"⟩]]⟩ := by
  obtain ⟨hbuilt, hbuiltin⟩ := read?_print_built
  refine ⟨(hbuilt {} _ ?_).mpr ?_, fun h => ?_, hbuiltin {} "a" (.named "text") _ rfl rfl {}⟩
  · simp only [List.mem_cons, List.not_mem_nil, or_false]
    rintro line (rfl | rfl) t ht
    · rw [List.mem_singleton.mp ht]
      exact .ofKey "Keyword"
    · cases ht
  · decide +kernel
  · -- the dot in the segment would have to be missing
    have hcategory := (hbuilt {} _ ?_).mp h
    · revert hcategory
      decide +kernel
    · simp only [List.mem_cons, List.not_mem_nil, or_false]
      rintro line rfl t ht
      rw [List.mem_singleton.mp ht]
      exact .ofSegments ["a.b"]

end Listing

end Tinct
