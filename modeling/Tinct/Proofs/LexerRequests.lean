import Tinct.Proofs.GlobLanguage
import Tinct.Proofs.PathParts
import Tinct.Proofs.Registrations

/-!
# Requests for lexers

Every request for a lexer is a search for the first one with a property, so after a run of
registrations each answer can be told from the last registration of every name: what goes by a
name, which lexer claims a file, and which one is most confident about a text.

## Key results

- `answers_find`, `answers_forFile`, `answers_guess`: what each request finds, and when it fails
- `registered_answers`: all of this for every run of registrations, which is known only by its last
  registrations
- `reachable_iff`: the names and aliases under which a lexer can be found
-/

namespace Tinct.Lexers

variable {history : List Lexer} {lexer : Lexer} {name : String}

/-! ## Small letters -/

theorem toList_smallLetters (name : String) :
    (smallLetters name).toList = name.toList.map Char.toLower := by
  rw [smallLetters, String.toList_ofList]

/-- A character stays as it is when letters are made small, unless it is a capital letter. -/
theorem toLower_eq_self_iff {c : Char} : c.toLower = c ↔ c.isUpper = false := by
  unfold Char.toLower Char.isUpper
  split
  · rename_i hcapital
    -- the small letter comes later in the alphabet, and no code wraps around
    have hne : c.val + ('a'.val - 'A'.val) ≠ c.val := by
      intro h
      have hnat := congrArg UInt32.toNat h
      have hle : c.val.toNat ≤ 90 := hcapital.2
      rw [UInt32.toNat_add] at hnat
      simp at hnat
      omega
    refine iff_of_false (fun h => hne (congrArg Char.val h)) ?_
    rw [decide_eq_true hcapital]
    exact Bool.noConfusion
  · rename_i hother
    exact iff_of_true rfl (decide_eq_false hother)

/-- A name stays as it is in small letters exactly if it has no capital letter of ASCII. -/
theorem smallLetters_eq_self_iff :
    smallLetters name = name ↔ ∀ c ∈ name.toList, c.isUpper = false := by
  rw [← String.toList_inj, toList_smallLetters]
  conv_lhs => rw [← List.map_id name.toList, List.map_map]
  simp only [List.map_inj_left, Function.comp_apply, id_eq, toLower_eq_self_iff]

/-! ## Answers -/

/-- A request is answered by the lexers with a property, of which there is at most one, and fails
where there is none. -/
structure Answers (result : Except Failure Lexer) (failure : Failure) (P : Lexer → Prop) : Prop where
  ok_iff : ∀ lexer, result = .ok lexer ↔ P lexer
  error_iff : ∀ e, result = .error e ↔ e = failure ∧ ∀ lexer, ¬ P lexer

/-- The lexer that a search finds, or else the failure, answers for the first one with the
    property. -/
theorem answers_of_find? {result : Except Failure Lexer} {failure : Failure} {P : Lexer → Prop}
    (found : Option Lexer) (hresult : result = found.elim (.error failure) .ok)
    (hfound : ∀ lexer, found = some lexer ↔ P lexer) : Answers result failure P := by
  subst hresult
  cases found with
  | none =>
    have hnone : ∀ lexer, ¬ P lexer := fun lexer hP => by simpa using (hfound lexer).mpr hP
    refine ⟨fun lexer => ?_, fun e => ?_⟩
    · simp [hnone lexer]
    · constructor
      · intro h
        exact ⟨(Except.error.inj h).symm, hnone⟩
      · intro h
        rw [h.1]
        rfl
  | some l =>
    have hl : P l := (hfound l).mp rfl
    refine ⟨fun lexer => ?_, fun e => ?_⟩
    · rw [← hfound lexer]
      simp
    · constructor
      · intro h
        cases h
      · intro h
        exact absurd hl (h.2 l)

/-- The lexer that goes by a name: the one that is registered under it, or else the first one with
the name as an alias. -/
def GoesBy (history : List Lexer) (name : String) (lexer : Lexer) : Prop :=
  lastRegistered history name = some lexer ∨
    lastRegistered history name = none ∧ IsFirst history (name ∈ ·.aliases) lexer

/-- A request by name is answered with the lexer that goes by the name in small letters. -/
theorem answers_find (history : List Lexer) (name : String) :
    Answers ((registered history).find name) (.noLexer name)
      (GoesBy history (smallLetters name)) := by
  refine answers_of_find? (((registered history).byName.find? (smallLetters name)).or
    ((registered history).byName.values.find? (·.aliases.contains (smallLetters name)))) ?_ ?_
  · -- a name that is stored ends the search before any alias is looked at
    unfold find
    dsimp only
    split
    · rename_i hname
      rw [hname]
      rfl
    · rename_i hname
      rw [hname, Option.none_or]
      split
      · rename_i halias
        rw [halias]
        rfl
      · rename_i halias
        rw [halias]
        rfl
  · -- both parts of the search look at what is registered last
    intro lexer
    rw [find?_byName_registered, GoesBy]
    cases lastRegistered history (smallLetters name) with
    | some l => simp
    | none => simp [find?_values_registered]

/-- A name is known exactly if a lexer goes by it. -/
theorem knows_iff : (registered history).knows name = true ↔
    ∃ lexer, GoesBy history (smallLetters name) lexer := by
  constructor
  · intro h
    cases hfind : (registered history).find name with
    | ok lexer => exact ⟨lexer, ((answers_find history name).ok_iff lexer).mp hfind⟩
    | error e =>
      rw [knows, hfind] at h
      cases h
  · intro h
    obtain ⟨lexer, hlexer⟩ := h
    rw [knows, ((answers_find history name).ok_iff lexer).mpr hlexer]
    rfl

/-- Some lexer goes by the names and aliases of the lexers, and by nothing else. -/
theorem exists_goesBy_iff : (∃ lexer, GoesBy history name lexer) ↔
    ∃ lexer, IsCurrent history lexer ∧ (lexer.name = name ∨ name ∈ lexer.aliases) := by
  constructor
  · intro h
    -- a lexer goes by its name, or by an alias
    obtain ⟨lexer, hname | ⟨-, hfirst⟩⟩ := h
    · exact ⟨lexer, isCurrent_of_lastRegistered hname, .inl (mem_of_lastRegistered hname).2⟩
    · exact ⟨lexer, hfirst.isCurrent, .inr hfirst.holds⟩
  · intro h
    obtain ⟨lexer, hcurrent, hlexer⟩ := h
    cases hlast : lastRegistered history name with
    | some named => exact ⟨named, .inl hlast⟩
    | none =>
      -- the name is not stored, so it is an alias, and aliases are looked at
      rcases hlexer with rfl | halias
      · exact absurd (hlast.symm.trans hcurrent) (by simp)
      · have hexists : ∃ first, IsFirst history (name ∈ ·.aliases) first :=
          exists_isFirst_iff.mpr ⟨lexer, hcurrent, halias⟩
        obtain ⟨first, hfirst⟩ := hexists
        exact ⟨first, .inr ⟨hlast, hfirst⟩⟩

/-- The lexer has a glob that spells the name of the file at a path. -/
def ClaimsFile (path : String) (lexer : Lexer) : Prop :=
  ∃ name, Path.IsFileName path name ∧ ∃ glob ∈ lexer.filenames, Glob.Spells glob.toList name.toList

/-- A path has one name for its file, so a lexer claims it by describing this name. -/
theorem claimsFile_iff {path : String} :
    ClaimsFile path lexer ↔
      lexer.filenames.any (Glob.describes · ((Path.fileName? path).getD "")) = true := by
  simp only [ClaimsFile, Path.isFileName_iff, exists_eq_left', List.any_eq_true, Glob.describes_iff]

/-- A path is answered with the first lexer that claims it. -/
theorem answers_forFile (history : List Lexer) (path : String) :
    Answers ((registered history).forFile path) (.noLexer path)
      (IsFirst history (ClaimsFile path)) := by
  refine answers_of_find? ((registered history).byName.values.find?
    (·.filenames.any (Glob.describes · ((Path.fileName? path).getD "")))) ?_ ?_
  · unfold forFile
    dsimp only
    split
    · rename_i hglob
      rw [hglob]
      rfl
    · rename_i hglob
      rw [hglob]
      rfl
  · intro lexer
    rw [find?_values_registered]
    exact isFirst_congr fun l => claimsFile_iff.symm

/-! ### Guessing -/

/-- The lexer has some confidence in a text, and none of the lexers has more. -/
def LeadsOn (source : String) (lexers : List Lexer) (lexer : Lexer) : Prop :=
  .zero < lexer.confidence source ∧
    ∀ other ∈ lexers, ¬ lexer.confidence source < other.confidence source

instance (source : String) (lexers : List Lexer) : DecidablePred (LeadsOn source lexers) :=
  fun _ => inferInstanceAs (Decidable (_ ∧ _))

/-- What the search for the most confident lexer has after some lexers: nothing, if all of them have
no confidence, or the first of the most confident ones. -/
def IsBest (source : String) (lexers : List Lexer) : Option (Lexer × Score) → Prop
  | none => ∀ other ∈ lexers, ¬ .zero < other.confidence source
  | some (lexer, score) =>
    score = lexer.confidence source ∧ .zero < score ∧
      ∃ front back, lexers = front ++ lexer :: back ∧
        (∀ other ∈ front, other.confidence source < score) ∧
          ∀ other ∈ back, ¬ score < other.confidence source

/-- None of the lexers is more confident than the best one. -/
theorem IsBest.not_lt {source : String} {lexers : List Lexer} {score : Score}
    (h : IsBest source lexers (some (lexer, score))) :
    ∀ other ∈ lexers, ¬ score < other.confidence source := by
  obtain ⟨hscore, -, front, back, hsplit, hfront, hback⟩ := h
  intro other hother
  rw [hsplit, List.mem_append, List.mem_cons] at hother
  rcases hother with hearlier | rfl | hlater
  · have hlt := hfront other hearlier
    rw [Score.lt_iff] at hlt ⊢
    omega
  · rw [hscore, Score.lt_iff]
    omega
  · exact hback other hlater

/-- One more lexer takes over only if it is more confident than all before it. -/
theorem isBest_moreConfident {source : String} {lexers : List Lexer} {best : Option (Lexer × Score)}
    (h : IsBest source lexers best) (next : Lexer) :
    IsBest source (lexers ++ [next]) (moreConfident source best next) := by
  unfold moreConfident
  dsimp only
  cases best with
  | none =>
    have hnone : ∀ other ∈ lexers, ¬ .zero < other.confidence source := h
    split
    · rename_i hmore
      have hpos : .zero < next.confidence source := hmore
      refine ⟨rfl, hpos, lexers, [], rfl, fun other hother => ?_, by simp⟩
      -- all before it have no confidence, and it has some
      have hnot := hnone other hother
      rw [Score.lt_iff] at hnot hpos ⊢
      omega
    · rename_i hnot
      exact List.forall_mem_append.mpr ⟨hnone, List.forall_mem_singleton.mpr hnot⟩
  | some found =>
    obtain ⟨lexer, score⟩ := found
    have hnot_lt := h.not_lt
    obtain ⟨hscore, hpos, front, back, hsplit, hfront, hback⟩ := h
    split
    · rename_i hmore
      have hgt : score < next.confidence source := hmore
      have hnext : .zero < next.confidence source := by
        rw [Score.lt_iff] at hpos hgt ⊢
        omega
      refine ⟨rfl, hnext, lexers, [], rfl, fun other hother => ?_, by simp⟩
      -- nothing was more confident than the best one, and the next lexer is
      have hle := hnot_lt other hother
      rw [Score.lt_iff] at hle hgt ⊢
      omega
    · rename_i hnot
      -- the next lexer is passed over, so it stands behind the best one
      have hlast : lexers ++ [next] = front ++ lexer :: (back ++ [next]) := by simp [hsplit]
      exact ⟨hscore, hpos, front, back ++ [next], hlast, hfront,
        List.forall_mem_append.mpr ⟨hback, List.forall_mem_singleton.mpr hnot⟩⟩

/-- Running through all lexers ends with the first of the most confident ones. -/
theorem isBest_foldl (source : String) (lexers : List Lexer) :
    IsBest source lexers (lexers.foldl (moreConfident source) none) := by
  induction lexers using List.reverseRecOn with
  | nil => exact fun other hother => absurd hother List.not_mem_nil
  | append_singleton lexers next ih =>
    rw [List.foldl_append]
    exact isBest_moreConfident ih next

/-- The search for the most confident lexer is a search for the first one that leads. -/
theorem find?_leadsOn (source : String) (lexers : List Lexer) :
    lexers.find? (fun lexer => LeadsOn source lexers lexer) =
      (lexers.foldl (moreConfident source) none).map (·.1) := by
  have hbest := isBest_foldl source lexers
  cases hfold : lexers.foldl (moreConfident source) none with
  | none =>
    rw [hfold] at hbest
    rw [Option.map_none, List.find?_eq_none]
    intro other hother hleads
    exact hbest other hother (of_decide_eq_true hleads).1
  | some found =>
    obtain ⟨lexer, score⟩ := found
    rw [hfold] at hbest
    have hnot_lt := hbest.not_lt
    obtain ⟨rfl, hpos, front, back, hsplit, hfront, -⟩ := hbest
    have hmem : lexer ∈ lexers := by simp [hsplit]
    have hleads : LeadsOn source lexers lexer := ⟨hpos, hnot_lt⟩
    refine List.find?_eq_some_iff_append.mpr ⟨decide_eq_true hleads, front, back, hsplit, ?_⟩
    -- the lexers before it do not lead, since it is more confident
    intro other hother
    have hnot : ¬ LeadsOn source lexers other := fun h => h.2 lexer hmem (hfront other hother)
    simpa using hnot

/-- The lexer has some confidence in a text, and no lexer of the collection has more. -/
structure IsMostConfident (history : List Lexer) (source : String) (lexer : Lexer) : Prop where
  pos : .zero < lexer.confidence source
  not_lt : ∀ other, IsCurrent history other →
    ¬ lexer.confidence source < other.confidence source

/-- To lead on what a collection holds is to be most confident of all current lexers. -/
theorem leadsOn_registered_iff {source : String} :
    LeadsOn source (registered history).byName.values lexer ↔
      IsMostConfident history source lexer := by
  simp only [LeadsOn, mem_values_registered]
  constructor
  · intro h
    exact ⟨h.1, h.2⟩
  · intro h
    exact ⟨h.pos, h.not_lt⟩

/-- A request by source text is answered with the first one of the most confident lexers. -/
theorem answers_guess (history : List Lexer) (source : String) :
    Answers ((registered history).guess source) (.noLexer "<source text>")
      (IsFirst history (IsMostConfident history source)) := by
  refine answers_of_find? (((registered history).byName.values.foldl
    (moreConfident source) none).map (·.1)) ?_ ?_
  · unfold guess
    split
    · rename_i hfold
      rw [hfold]
      rfl
    · rename_i hfold
      rw [hfold]
      rfl
  · intro lexer
    rw [← find?_leadsOn, find?_values_registered]
    refine isFirst_congr fun l => ?_
    rw [decide_eq_true_eq, leadsOn_registered_iff]

/-! ## Every run of registrations -/

/-- After any run of registrations the names of the collection are the registered ones, ascending
    byte by byte, and each request is answered from the last registrations, one for a name with the
    capital letters of ASCII made small; no order in which a table could hold them plays a role.  So runs with the same last registrations lead to the same
    collection, and with it to the same answers, in particular runs in which every name has the same
    registrations in the same order. -/
theorem registered_answers (history : List Lexer) :
    (((registered history).names.Pairwise fun a b => utf8Bytes a < utf8Bytes b) ∧
      ∀ name, name ∈ (registered history).names ↔ ∃ lexer ∈ history, lexer.name = name) ∧
    (∀ name, Answers ((registered history).find name) (.noLexer name)
      (GoesBy history (String.ofList (name.toList.map Char.toLower)))) ∧
    (∀ path, Answers ((registered history).forFile path) (.noLexer path)
      (IsFirst history (ClaimsFile path))) ∧
    (∀ source, Answers ((registered history).guess source) (.noLexer "<source text>")
      (IsFirst history (IsMostConfident history source))) ∧
    (∀ table, Tabulates table history →
      table.mergeSort nameLe = (registered history).byName.entries) ∧
    (∀ other, (∀ name, lastRegistered other name = lastRegistered history name) →
      registered other = registered history) ∧
    ∀ other, (∀ name, other.filter (·.name = name) = history.filter (·.name = name)) →
      registered other = registered history := by
  refine ⟨⟨pairwise_names _, fun name => ?_⟩, fun name => ?_, answers_forFile history,
    answers_guess history, fun table h => entries_of_tabulates h,
    fun other h => registered_eq_of_lastRegistered h, fun other h => ?_⟩
  · -- the names are the keys of the collection, and each was registered
    rw [mem_names_registered, exists_lastRegistered_iff]
  · rw [← toList_smallLetters, String.ofList_toList]
    exact answers_find history name
  · -- the last registration of a name is looked up among those of this name
    refine registered_eq_of_lastRegistered fun name => ?_
    rw [lastRegistered, lastRegistered, h]

/-- A lexer that has a name and aliases and nothing else. -/
def bare (name : String) (aliases : List String) : Lexer :=
  { name, aliases, fragments := fun _ => [] }

/-- A lexer that was replaced leaves nothing behind: one of its aliases leads to another lexer, and
    one to none.  Names and aliases are found also when they are asked for in capital letters, and
    the failure has the name as it was asked for.  The run can be reordered as long as the
    replacement stays the later one. -/
theorem registered_answers_of_replaced :
    let history := [bare "b" ["x", "y"], bare "c" ["b", "x"], bare "b" ["z"]]
    (registered history).names = ["b", "c"] ∧ GoesBy history "x" (bare "c" ["b", "x"]) ∧
      GoesBy history "b" (bare "b" ["z"]) ∧ (∀ lexer, ¬ GoesBy history "y" lexer) ∧
      (registered history).find "X" = .ok (bare "c" ["b", "x"]) ∧
      (registered history).find "B" = .ok (bare "b" ["z"]) ∧
      (registered history).find "Y" = .error (.noLexer "Y") ∧
      registered [bare "c" ["b", "x"], bare "b" ["x", "y"], bare "b" ["z"]] =
        registered history := by
  intro history
  obtain ⟨-, hfind, -, -, -, -, hreorder⟩ := registered_answers history
  -- "x" is an alias of the second lexer only, as the first one has been replaced
  have halias : GoesBy history "x" (bare "c" ["b", "x"]) := ((hfind "x").ok_iff _).mp rfl
  have hname : GoesBy history "b" (bare "b" ["z"]) := ((hfind "b").ok_iff _).mp rfl
  have hnone : ∀ lexer, ¬ GoesBy history "y" lexer :=
    (((hfind "y").error_iff (.noLexer "y")).mp rfl).2
  refine ⟨rfl, halias, hname, hnone, ((hfind "X").ok_iff _).mpr halias,
    ((hfind "B").ok_iff _).mpr hname, ((hfind "Y").error_iff _).mpr ⟨rfl, hnone⟩,
    hreorder _ fun name => ?_⟩
  by_cases hb : "b" = name
  · subst hb
    rfl
  · simp [history, bare, hb, List.filter_cons]

/-! ## Names in small letters -/

/-- A name of the collection leads to its lexer exactly if it has no capital letters, or if its small
    letters are no name and its lexer is the first one with them as an alias.  And a name or alias
    is known exactly if its small letters are the name or an alias of a lexer. -/
theorem reachable_iff (history : List Lexer) :
    (∀ name ∈ (registered history).names, ∃ lexer, lastRegistered history name = some lexer ∧
      ((registered history).find name = .ok lexer ↔
        smallLetters name = name ∨
          lastRegistered history (smallLetters name) = none ∧
            IsFirst history (smallLetters name ∈ ·.aliases) lexer)) ∧
    ∀ name, (registered history).knows name = true ↔
      ∃ lexer, IsCurrent history lexer ∧
        (lexer.name = smallLetters name ∨ smallLetters name ∈ lexer.aliases) := by
  constructor
  · intro name hname
    obtain ⟨lexer, hlexer⟩ := mem_names_registered.mp hname
    refine ⟨lexer, hlexer, ?_⟩
    -- the lexer is stored under no other name than its own
    have hstored : lastRegistered history (smallLetters name) = some lexer ↔
        smallLetters name = name := by
      constructor
      · intro h
        rw [← (mem_of_lastRegistered h).2, (mem_of_lastRegistered hlexer).2]
      · intro h
        rw [h, hlexer]
    rw [(answers_find history name).ok_iff, GoesBy, hstored]
  · intro name
    rw [knows_iff, exists_goesBy_iff]

/-- A lexer whose name has capital letters is found if it has the small letters as an alias, and then
    it is known in every spelling. -/
theorem reachable_of_alias :
    (registered [bare "TeX" ["tex"]]).find "TeX" = .ok (bare "TeX" ["tex"]) ∧
      (registered [bare "TeX" ["tex"]]).knows "TEX" = true := by
  obtain ⟨hfind, hknows⟩ := reachable_iff [bare "TeX" ["tex"]]
  have hlisted : "TeX" ∈ (registered [bare "TeX" ["tex"]]).names := List.mem_singleton.mpr rfl
  obtain ⟨lexer, hlast, hok⟩ := hfind "TeX" hlisted
  obtain rfl : bare "TeX" ["tex"] = lexer := Option.some.inj hlast
  have halias : smallLetters "TEX" ∈ (bare "TeX" ["tex"]).aliases := List.mem_singleton.mpr rfl
  refine ⟨hok.mpr (.inr ⟨rfl, rfl, halias, fun other hother _ => .inl ?_⟩),
    (hknows "TEX").mpr ⟨bare "TeX" ["tex"], rfl, .inr halias⟩⟩
  -- there is no other lexer
  exact List.mem_singleton.mp (mem_of_lastRegistered hother).1

/-- A lexer whose name and alias have capital letters is in the collection and cannot be found. -/
theorem not_reachable_of_capitals :
    (registered [bare "TeX" ["LaTeX"]]).names = ["TeX"] ∧
      lastRegistered [bare "TeX" ["LaTeX"]] "TeX" = some (bare "TeX" ["LaTeX"]) ∧
      (registered [bare "TeX" ["LaTeX"]]).find "TeX" = .error (.noLexer "TeX") ∧
      (registered [bare "TeX" ["LaTeX"]]).knows "LaTeX" = false :=
  ⟨rfl, rfl, rfl, rfl⟩

end Tinct.Lexers
