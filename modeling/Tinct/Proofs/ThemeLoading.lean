import Mathlib.Data.List.Induction
import Mathlib.Data.List.Sort
import Tinct.Proofs.FileStates
import Tinct.Proofs.PathParts
import Tinct.Proofs.SortedMaps
import Tinct.Proofs.TextOrder
import Tinct.Theme.Builtin

/-!
# Collections of themes after a run of changes

Loading a directory reads its theme files in the order of their names, whatever order the directory
lists them in, and registers their themes up to the first file that cannot be used.  So a collection
that came about by registering themes and loading directories, from the empty or the built-in
collection on, knows of each name the last theme that was registered under it.

## Key results

- `gives_load`: what loading a directory answers, and which themes it registers
- `exists_loading`: the loading of a directory always comes to an end
- `isCurrent_of_reachable`: a collection after a run of changes has the last theme of every name
- `load_and_find_reachable`: both together
-/

namespace Tinct

/-- A list is read to its end, or up to its first bad element. -/
theorem exists_read_up_to {α β ε : Type} (f : α → Except ε β) (l : List α) :
    (∃ read : List β, l.map f = read.map .ok) ∨
      ∃ (front : List α) (bad : α) (back : List α) (read : List β) (e : ε),
        l = front ++ bad :: back ∧ front.map f = read.map .ok ∧ f bad = .error e := by
  induction l with
  | nil => exact .inl ⟨[], rfl⟩
  | cons a rest ih =>
    cases ha : f a with
    | error e => exact .inr ⟨[], a, rest, [], e, rfl, rfl, ha⟩
    | ok b =>
      rcases ih with ⟨read, hread⟩ | ⟨front, bad, back, read, e, rfl, hread, hbad⟩
      · exact .inl ⟨b :: read, by simp [ha, hread]⟩
      · exact .inr ⟨a :: front, bad, back, b :: read, e, rfl, by simp [ha, hread], hbad⟩

namespace ThemeLibrary

/-! ## Registrations -/

/-- The collection with further themes registered, one after the other. -/
def registerAll (l : ThemeLibrary) (themes : List Theme) : ThemeLibrary := themes.foldl register l

/-- The last theme of a name. -/
def lastNamed (themes : List Theme) (name : String) : Option Theme :=
  (themes.filter (·.name = name)).getLast?

/-- The theme that is added last replaces the one of its name. -/
theorem lastNamed_concat (themes : List Theme) (t : Theme) (name : String) :
    lastNamed (themes ++ [t]) name = if t.name = name then some t else lastNamed themes name := by
  simp only [lastNamed, getLast?_filter_concat, decide_eq_true_iff]

theorem name_eq_of_lastNamed {themes : List Theme} {name : String} {t : Theme}
    (h : lastNamed themes name = some t) : t.name = name := by
  have hmem := List.mem_filter.mp (List.mem_of_getLast? h)
  simpa using hmem.2

theorem registerAll_append (l : ThemeLibrary) (front back : List Theme) :
    l.registerAll (front ++ back) = (l.registerAll front).registerAll back :=
  List.foldl_append

/-- A registered theme is found by its name, and the others as before. -/
theorem find?_byName_register (l : ThemeLibrary) (t : Theme) (name : String) :
    (l.register t).byName.find? name = if t.name = name then some t else l.byName.find? name :=
  SortedMap.find?_insert_eq_ite _ _ _ _

/-- Of themes that are registered in a row the last one of a name is found, and a name that none of
    them has keeps its theme. -/
theorem find?_byName_registerAll (l : ThemeLibrary) (themes : List Theme) (name : String) :
    (l.registerAll themes).byName.find? name = (lastNamed themes name).or (l.byName.find? name) := by
  induction themes using List.reverseRecOn with
  | nil => rfl
  | append_singleton front t ih =>
    have hrun : l.registerAll (front ++ [t]) = (l.registerAll front).register t :=
      l.registerAll_append front [t]
    rw [hrun, find?_byName_register, ih, lastNamed_concat]
    split <;> rfl

/-! ## Theme files -/

variable {δ : Type} [Files δ]

/-- A name in a directory is that of a theme file: a file with one of two extensions. -/
def IsThemeFileIn (d : δ) (dir name : String) : Prop :=
  (Path.extension? name = some "yaml" ∨ Path.extension? name = some "yml") ∧
    Files.isFile d (Path.join dir name) = true

instance (d : δ) (dir name : String) : Decidable (IsThemeFileIn d dir name) :=
  inferInstanceAs (Decidable (_ ∧ _))

/-- The name of a theme file is a stem with one of two endings. -/
theorem isThemeFileIn_iff {d : δ} {dir name : String} :
    IsThemeFileIn d dir name ↔
      (∃ stem, stem ≠ "" ∧ (name = stem ++ ".yaml" ∨ name = stem ++ ".yml")) ∧
        Files.isFile d (Path.join dir name) = true := by
  have hyaml : '.' ∉ "yaml".toList := by decide
  have hyml : '.' ∉ "yml".toList := by decide
  have hending : ∀ stem ext : String, stem ++ "." ++ ext = stem ++ ("." ++ ext) :=
    fun _ _ => String.append_assoc
  simp only [IsThemeFileIn, Path.extension?_eq_some_iff, hyaml, hyml, not_false_eq_true, true_and,
    hending, ← exists_or, ← and_or_left]
  rfl

/-- The theme files among the names in a directory, in ascending order. -/
structure AreThemeFiles (d : δ) (dir : String) (names files : List String) : Prop where
  perm : files.Perm (names.filter fun name => IsThemeFileIn d dir name)
  ascending : files.Pairwise fun a b => utf8Bytes a ≤ utf8Bytes b

/-- The theme that a file of a directory holds. -/
def themeIn (read : ThemeReader) (d : δ) (dir name : String) : Except Failure Theme :=
  match Files.readText d (Path.join dir name) with
  | .error e => .error (.file (Path.join dir name) e)
  | .ok text => readTheme read (Path.join dir name) (Path.stem name) text

/-- The themes that loading a directory registers, and its result. -/
inductive Loading (read : ThemeReader) (d : δ) (dir : String) :
    List Theme → Except Failure Nat → Prop where
  /-- The directory cannot be listed. -/
  | unlisted {e : FileError} (hnames : Files.listNames d dir = .error e) :
      Loading read d dir [] (.error (.file dir e))
  /-- All theme files can be used. -/
  | complete {names files : List String} {themes : List Theme}
      (hnames : Files.listNames d dir = .ok names) (hfiles : AreThemeFiles d dir names files)
      (hthemes : files.map (themeIn read d dir) = themes.map .ok) :
      Loading read d dir themes (.ok files.length)
  /-- A theme file cannot be used, and all files before it can. -/
  | stopped {names front back : List String} {bad : String} {themes : List Theme} {e : Failure}
      (hnames : Files.listNames d dir = .ok names)
      (hfiles : AreThemeFiles d dir names (front ++ bad :: back))
      (hthemes : front.map (themeIn read d dir) = themes.map .ok)
      (hbad : themeIn read d dir bad = .error e) :
      Loading read d dir themes (.error e)

/-- The theme files of a directory in the order of their names. -/
def sortedFiles (d : δ) (dir : String) (names : List String) : List String :=
  (names.filter fun name => IsThemeFileIn d dir name).mergeSort (· ≤ ·)

/-- The files that are read are all those of themes, in order. -/
theorem areThemeFiles_sortedFiles (d : δ) (dir : String) (names : List String) :
    AreThemeFiles d dir names (sortedFiles d dir names) where
  perm := List.mergeSort_perm _ _
  ascending := by
    have hsorted := List.pairwise_mergeSort' (· ≤ · : String → String → Prop)
      (names.filter fun name => IsThemeFileIn d dir name)
    exact hsorted.imp utf8Bytes_le_of_le

/-- There is one way to put the theme files in order, whatever order they are listed in. -/
theorem AreThemeFiles.eq_sortedFiles {d : δ} {dir : String} {names files : List String}
    (h : AreThemeFiles d dir names files) : files = sortedFiles d dir names := by
  have hsorted := areThemeFiles_sortedFiles d dir names
  refine (h.perm.trans hsorted.perm.symm).eq_of_pairwise ?_ h.ascending hsorted.ascending
  intro a b _ _ hab hba
  exact eq_of_utf8Bytes_le hab hba

/-- Loading a directory comes to some end. -/
theorem exists_loading (read : ThemeReader) (d : δ) (dir : String) :
    ∃ themes result, Loading read d dir themes result := by
  cases hnames : Files.listNames d dir with
  | error e => exact ⟨[], _, .unlisted hnames⟩
  | ok names =>
    have hfiles := areThemeFiles_sortedFiles d dir names
    rcases exists_read_up_to (themeIn read d dir) (sortedFiles d dir names) with
      ⟨themes, hthemes⟩ | ⟨front, bad, back, themes, e, hsplit, hthemes, hbad⟩
    · exact ⟨themes, _, .complete hnames hfiles hthemes⟩
    · rw [hsplit] at hfiles
      exact ⟨themes, _, .stopped hnames hfiles hthemes hbad⟩

/-! ## What loading a directory answers -/

variable {m : Type → Type} [Monad m] [Workspace m]

/-- Looking for theme files answers the sorted ones and leaves all files alone. -/
theorem gives_themeFiles (I : Interpretation m δ) (d : δ) (dir : String) (names : List String) :
    I.Gives (themeFiles dir names) d (sortedFiles d dir names) d := by
  have hselect := Execution.gives_filterM (fun name => I.gives_isFile d (Path.join dir name))
    (names.filter isThemeFile)
  have hfilter : (names.filter isThemeFile).filter (fun name => Files.isFile d (Path.join dir name))
      = names.filter fun name => IsThemeFileIn d dir name := by
    rw [List.filter_filter]
    refine List.filter_congr fun name _ => ?_
    rw [Bool.eq_iff_iff, decide_eq_true_iff]
    simp [IsThemeFileIn, isThemeFile, and_comm]
  rw [hfilter] at hselect
  exact hselect.bind (Execution.gives_pure _ d)

/-- Files that can be used are loaded one after the other. -/
theorem gives_loadFiles_append (I : Interpretation m δ) {read : ThemeReader} {d : δ} {dir : String}
    {front : List String} {themes : List Theme} (l : ThemeLibrary) (back : List String)
    {r : ThemeLibrary × Option Failure} (hfront : front.map (themeIn read d dir) = themes.map .ok)
    (hback : I.Gives (loadFiles read dir (l.registerAll themes) back) d r d) :
    I.Gives (loadFiles read dir l (front ++ back)) d r d := by
  -- the induction is on the files that are read without failure, which register their themes
  induction front generalizing l themes with
  | nil =>
    obtain rfl : themes = [] := by simpa using hfront.symm
    exact hback
  | cons name rest ih =>
    cases themes with
    | nil => simp at hfront
    | cons t themes =>
      obtain ⟨hname, hrest⟩ := List.cons.inj hfront
      refine (I.gives_readText d (Path.join dir name)).bind ?_
      unfold themeIn at hname
      cases htext : Files.readText d (Path.join dir name) with
      | error e =>
        rw [htext] at hname
        cases hname
      | ok text =>
        rw [htext] at hname
        dsimp only at hname ⊢
        rw [hname]
        exact (I.gives_report d _).bind (ih (l.register t) hrest hback)

/-- A file that cannot be used ends the loading. -/
theorem gives_loadFiles_of_error (I : Interpretation m δ) {read : ThemeReader} {d : δ}
    {dir name : String} {rest : List String} {e : Failure} (l : ThemeLibrary)
    (h : themeIn read d dir name = .error e) :
    I.Gives (loadFiles read dir l (name :: rest)) d (l, some e) d := by
  refine (I.gives_readText d (Path.join dir name)).bind ?_
  unfold themeIn at h
  cases htext : Files.readText d (Path.join dir name) with
  | error e' =>
    rw [htext] at h
    obtain rfl := Except.error.inj h
    exact Execution.gives_pure _ d
  | ok text =>
    rw [htext] at h
    dsimp only at h ⊢
    rw [h]
    exact Execution.gives_pure _ d

/-- Loading registers the themes up to the first file that cannot be used, and gives its error or
    the number of the files. -/
theorem gives_load (I : Interpretation m δ) {read : ThemeReader} {d : δ} {dir : String}
    {themes : List Theme} {result : Except Failure Nat} (h : Loading read d dir themes result)
    (l : ThemeLibrary) : I.Gives (l.load read dir) d (l.registerAll themes, result) d := by
  refine (I.gives_listNames d dir).bind ?_
  cases h with
  -- a directory that cannot be listed ends the loading
  | unlisted hnames =>
    rw [hnames]
    exact Execution.gives_pure _ d
  | @complete names files _ hnames hfiles hthemes =>
    rw [hnames]
    refine (gives_themeFiles I d dir names).bind ?_
    rw [← hfiles.eq_sortedFiles]
    -- all files are read, so all themes are registered
    have hload := gives_loadFiles_append I l [] hthemes
      (Execution.gives_pure (l.registerAll themes, none) d)
    rw [List.append_nil] at hload
    exact hload.bind (Execution.gives_pure _ d)
  | @stopped names front back bad _ e hnames hfiles hthemes hbad =>
    rw [hnames]
    refine (gives_themeFiles I d dir names).bind ?_
    rw [← hfiles.eq_sortedFiles]
    -- the themes before the bad file stay, and the files behind it are not read
    have hload := gives_loadFiles_append I l (bad :: back) hthemes
      (gives_loadFiles_of_error I (l.registerAll themes) hbad)
    exact hload.bind (Execution.gives_pure _ d)

/-! ## Runs of changes -/

/-- A collection that came about by changes, with all themes that were registered on the way.
    Between two changes the files can be exchanged for any others. -/
inductive Reachable (I : Interpretation m δ) (read : ThemeReader) :
    List Theme → ThemeLibrary → Prop where
  | empty : Reachable I read [] empty
  | builtin : Reachable I read [Theme.standard, Theme.monokai, Theme.blackAndWhite] builtin
  | register {history : List Theme} {l : ThemeLibrary} (t : Theme)
      (h : Reachable I read history l) : Reachable I read (history ++ [t]) (l.register t)
  | load {history themes : List Theme} {l l' : ThemeLibrary} {d : δ} {dir : String}
      {result answer : Except Failure Nat} (h : Reachable I read history l)
      (hthemes : Loading read d dir themes result)
      (hload : I.Gives (l.load read dir) d (l', answer) d) :
      Reachable I read (history ++ themes) l'

/-- The collection has the last theme of every name, in the order of the names, and lists the names
    that have one. -/
structure IsCurrent (history : List Theme) (l : ThemeLibrary) : Prop where
  name_eq : ∀ name t, (name, t) ∈ l.byName.entries → t.name = name
  ascending : l.names.Pairwise fun a b => utf8Bytes a < utf8Bytes b
  find_eq_ok_iff : ∀ name t, l.find name = .ok t ↔ lastNamed history name = some t
  mem_names_iff : ∀ name, name ∈ l.names ↔ ∃ t, l.find name = .ok t
  eq_of_find_eq_error : ∀ name e, l.find name = .error e → e = .unknownTheme name l.names

/-- Every change registers the themes of its history on top of the collection before. -/
theorem eq_registerAll_of_reachable {I : Interpretation m δ} {read : ThemeReader}
    {history : List Theme} {l : ThemeLibrary} (h : Reachable I read history l) :
    l = registerAll .empty history := by
  induction h with
  | empty => rfl
  | builtin => rfl
  | register t _ ih => rw [registerAll_append, ← ih]; rfl
  | load _ hthemes hload ih =>
    have hsame := (hload.unique (gives_load I hthemes _)).1
    rw [registerAll_append, ← ih]
    exact (Prod.mk.inj hsame).1

/-- A library that is reached holds the last themes of its history. -/
theorem isCurrent_of_reachable {I : Interpretation m δ} {read : ThemeReader}
    {history : List Theme} {l : ThemeLibrary} (h : Reachable I read history l) :
    IsCurrent history l := by
  -- the library holds what its history registered, one theme after the other
  have hfind : ∀ name, l.byName.find? name = lastNamed history name := by
    intro name
    rw [eq_registerAll_of_reachable h, find?_byName_registerAll]
    exact Option.or_none
  constructor
  · intro name t hentry
    rw [← SortedMap.find?_eq_some_iff, hfind] at hentry
    exact name_eq_of_lastNamed hentry
  · exact l.byName.pairwise_keys compare_eq_lt_iff_utf8Bytes_lt.mp
  · intro name t
    rw [find, hfind]
    cases lastNamed history name <;> simp
  · -- the names are the keys of the map that is searched
    intro name
    rw [names, SortedMap.mem_keys_iff, find]
    cases l.byName.find? name <;> simp
  · intro name e herror
    rw [find] at herror
    cases hname : l.byName.find? name with
    | some t =>
      rw [hname] at herror
      cases herror
    | none =>
      rw [hname] at herror
      exact (Except.error.inj herror).symm

/-- Loading a directory comes to an end, and has registered the themes of its files in the order of
    their names, up to the first file that cannot be used; whatever changes a collection went
    through, it has the last theme of every name. -/
theorem load_and_find_reachable (I : Interpretation m δ) (read : ThemeReader) :
    (∀ (d : δ) dir, ∃ themes result, Loading read d dir themes result) ∧
    (∀ (d : δ) dir themes result, Loading read d dir themes result → ∀ l : ThemeLibrary,
      I.Gives (l.load read dir) d (l.registerAll themes, result) d ∧
      ∀ name, (l.registerAll themes).byName.find? name =
        (lastNamed themes name).or (l.byName.find? name)) ∧
    ∀ history l, Reachable I read history l → IsCurrent history l := by
  refine ⟨exists_loading read, ?_, fun _ _ => isCurrent_of_reachable⟩
  intro d dir themes result h l
  exact ⟨gives_load I h l, find?_byName_registerAll l themes⟩

/-- The themes before a file that cannot be used are there, also in place of built-in ones, and a
    theme without a name of its own under the stem of its file. -/
theorem find_of_load_stopped :
    let read : ThemeReader := fun stem text =>
      if text = "" then none else some ⟨if text = "?" then stem else text, none, .empty⟩
    let d : Memory.Places := .ofList
      [(["t"], .directory), (["t", "d.yaml"], .text "mine"), (["t", "c.yml"], .text ""),
        (["t", "b.night.yml"], .text "?"), (["t", "a.yaml"], .text "bw"),
        (["t", "a.txt"], .text "bw")]
    ∃ l, Memory.interpretation.Gives (builtin.load read "t") d (l, .error (.badTheme "t/c.yml")) d ∧
      l.find "bw" = .ok ⟨"bw", none, .empty⟩ ∧
      l.find "b.night" = .ok ⟨"b.night", none, .empty⟩ ∧
      l.find "monokai" = .ok Theme.monokai ∧
      l.names = ["b.night", "bw", "default", "monokai"] ∧
      l.find "mine" = .error (.unknownTheme "mine" l.names) := by
  intro read d
  obtain ⟨-, hload, hrun⟩ := load_and_find_reachable Memory.interpretation read
  have hnames : Files.listNames d "t" =
      .ok ["a.txt", "a.yaml", "b.night.yml", "c.yml", "d.yaml"] := by
    decide +kernel
  -- the text file is no theme, and the others are read by name
  have hfiles : AreThemeFiles d "t" ["a.txt", "a.yaml", "b.night.yml", "c.yml", "d.yaml"]
      (["a.yaml", "b.night.yml"] ++ "c.yml" :: ["d.yaml"]) := by
    constructor
    · decide +kernel
    · decide +kernel
  let themes : List Theme := [⟨"bw", none, .empty⟩, ⟨"b.night", none, .empty⟩]
  have hthemes : ["a.yaml", "b.night.yml"].map (themeIn read d "t") = themes.map .ok := by
    decide +kernel
  have hbad : themeIn read d "t" "c.yml" = .error (.badTheme "t/c.yml") := by
    decide +kernel
  have hloading := Loading.stopped hnames hfiles hthemes hbad
  have hgives := (hload d "t" _ _ hloading builtin).1
  have hcurrent := hrun _ _ (.load .builtin hloading hgives)
  refine ⟨_, hgives, ?_, ?_, ?_, rfl, ?_⟩
  · exact (hcurrent.find_eq_ok_iff _ _).mpr (by decide +kernel)
  · exact (hcurrent.find_eq_ok_iff _ _).mpr (by decide +kernel)
  · exact (hcurrent.find_eq_ok_iff _ _).mpr rfl
  · cases hmine : find (registerAll builtin themes) "mine" with
    | error e => rw [hcurrent.eq_of_find_eq_error _ _ hmine]
    -- the file of this theme comes behind the bad one
    | ok t =>
      have hlast := (hcurrent.find_eq_ok_iff _ _).mp hmine
      have hnone : lastNamed ([Theme.standard, Theme.monokai, Theme.blackAndWhite] ++ themes)
          "mine" = none := by decide +kernel
      rw [hnone] at hlast
      cases hlast

end ThemeLibrary

end Tinct
