import Tinct.Workspace.Filtered
import Tinct.Workspace.Memory

/-!
# Workspaces as states of files

A workspace is the operations of a monad.  To say what a program answers, and what it leaves of the
files, its monad is run on states that hold the files: reading and reporting change none of them,
and a write either fails and changes nothing, or changes what the place of its path holds.  A
workspace in memory is interpreted in this way, and with it the same workspace behind a filter of
reports.

## Key results

- `Execution.Gives.bind`, `Execution.Reads.bind`: a program answers, or only reads, step by step
- `Memory.interpretation`, `Interpretation.filtered`: the workspaces of this library
- `Memory.content?_insert`, `Memory.place?_insert`: what a write in memory changes
-/

namespace Tinct

/-! ## Files as values -/

/-- Files as a value: what the operations of a workspace answer, and what a write makes of them. -/
class Files (δ : Type) where
  readText : δ → String → Except FileError String
  writeText : δ → String → String → Except FileError δ
  listNames : δ → String → Except FileError (List String)
  isFile : δ → String → Bool

/-- Files that lie at places, to which paths lead. -/
class PlacedFiles (δ : Type) extends Files δ where
  Place : Type
  place? : δ → String → Option Place
  content? : δ → Place → Option Content
  /-- Reading gives the text that lies at the place of a path. -/
  readText_eq_ok_iff {d : δ} {path text : String} : readText d path = .ok text ↔
    ∃ x, place? d path = some x ∧ content? d x = some (.text text)
  /-- A write changes what lies at one place. -/
  content?_writeText {d d' : δ} {path text : String} (h : writeText d path text = .ok d') :
    ∃ x, place? d path = some x ∧ content? d' x = some (.text text) ∧
      ∀ y, y ≠ x → content? d' y = content? d y
  /-- A write leaves every path where it led. -/
  place?_writeText {d d' : δ} {path text : String} (h : writeText d path text = .ok d') :
    place? d' = place? d

/-- The second files are the first ones but for a text at the place of a path. -/
def Replaces {δ : Type} [PlacedFiles δ] (d d' : δ) (path text : String) : Prop :=
  PlacedFiles.place? d' = PlacedFiles.place? d ∧
    ∃ x, PlacedFiles.place? d path = some x ∧ PlacedFiles.content? d' x = some (.text text) ∧
      ∀ y, y ≠ x → PlacedFiles.content? d' y = PlacedFiles.content? d y

/-- A write that succeeds replaces a text. -/
theorem replaces_of_writeText {δ : Type} [PlacedFiles δ] {d d' : δ} {path text : String}
    (h : Files.writeText d path text = .ok d') : Replaces d d' path text :=
  ⟨PlacedFiles.place?_writeText h, PlacedFiles.content?_writeText h⟩

/-- A text that was written is read. -/
theorem Replaces.readText {δ : Type} [PlacedFiles δ] {d d' : δ} {path text : String}
    (h : Replaces d d' path text) : Files.readText d' path = .ok text := by
  obtain ⟨hplace, x, hx, hcontent, -⟩ := h
  exact PlacedFiles.readText_eq_ok_iff.mpr ⟨x, by rw [hplace, hx], hcontent⟩

/-! ## Programs on files -/

/-- A way to run the programs of a monad on states that hold files. -/
structure Execution (m : Type → Type) [Monad m] (δ : Type) where
  State : Type
  files : State → δ
  exists_state (d : δ) : ∃ w, files w = d
  run {α : Type} : m α → State → α × State
  run_pure {α : Type} (a : α) (w : State) : run (pure a) w = (a, w)
  run_bind {α β : Type} (x : m α) (f : α → m β) (w : State) :
    run (x >>= f) w = run (f (run x w).1) (run x w).2

namespace Execution

variable {m : Type → Type} [Monad m] {δ : Type} {E : Execution m δ} {α β : Type}

/-- In every state with the files `d`, the program answers `a` and leaves the files `d'`. -/
def Gives (E : Execution m δ) (x : m α) (d : δ) (a : α) (d' : δ) : Prop :=
  ∀ w, E.files w = d → (E.run x w).1 = a ∧ E.files (E.run x w).2 = d'

theorem gives_pure (a : α) (d : δ) : E.Gives (pure a) d a d := by
  intro w hw
  rw [E.run_pure]
  exact ⟨rfl, hw⟩

/-- A program answers step by step. -/
theorem Gives.bind {x : m α} {f : α → m β} {d d' d'' : δ} {a : α} {b : β}
    (hx : E.Gives x d a d') (hf : E.Gives (f a) d' b d'') : E.Gives (x >>= f) d b d'' := by
  intro w hw
  obtain ⟨ha, hd'⟩ := hx w hw
  rw [E.run_bind, ha]
  exact hf _ hd'

/-- A selection by questions that leave the files alone. -/
theorem gives_filterM {ask : α → m Bool} {p : α → Bool} {d : δ}
    (h : ∀ a, E.Gives (ask a) d (p a) d) (l : List α) :
    E.Gives (l.filterM ask) d (l.filter p) d := by
  -- the selected elements are collected in front of those that were selected before
  have hcollect : ∀ l kept, E.Gives (List.filterAuxM ask l kept) d
      ((l.filter p).reverse ++ kept) d := by
    intro l
    induction l with
    | nil => exact fun kept => gives_pure kept d
    | cons a rest ih =>
      intro kept
      refine (h a).bind ?_
      cases hp : p a with
      | false => simpa [hp] using ih kept
      | true => simpa [hp] using ih (a :: kept)
  refine (hcollect l []).bind ?_
  have hreverse : ((l.filter p).reverse ++ []).reverse = l.filter p := by simp
  rw [hreverse]
  exact gives_pure _ d

/-- A program has one answer and leaves the files in one way. -/
theorem Gives.unique {x : m α} {d d' d'' : δ} {a b : α} (ha : E.Gives x d a d')
    (hb : E.Gives x d b d'') : a = b ∧ d' = d'' := by
  -- any state with these files shows both answers
  obtain ⟨w, hw⟩ := E.exists_state d
  exact ⟨(ha w hw).1.symm.trans (hb w hw).1, (ha w hw).2.symm.trans (hb w hw).2⟩

/-- The program leaves all files as they are, whatever they are. -/
def Reads (E : Execution m δ) (x : m α) : Prop := ∀ d, ∃ a, E.Gives x d a d

theorem reads_pure (a : α) : E.Reads (pure a : m α) := fun d => ⟨a, gives_pure a d⟩

/-- A program leaves all files alone if its steps do. -/
theorem Reads.bind {x : m α} {f : α → m β} (hx : E.Reads x) (hf : ∀ a, E.Reads (f a)) :
    E.Reads (x >>= f) := by
  intro d
  obtain ⟨a, ha⟩ := hx d
  obtain ⟨b, hb⟩ := hf a d
  exact ⟨b, ha.bind hb⟩

/-- The files behind a program that only reads are those before it. -/
theorem Reads.eq_of_gives {x : m α} (hx : E.Reads x) {d d' : δ} {a : α} (h : E.Gives x d a d') :
    d' = d := by
  obtain ⟨b, hb⟩ := hx d
  exact (h.unique hb).2

end Execution

/-- A way to run the programs of a workspace on states that hold files. -/
structure Interpretation (m : Type → Type) [Monad m] [Workspace m] (δ : Type) [Files δ] extends
    Execution m δ where
  gives_readText (d : δ) (path : String) :
    toExecution.Gives (Workspace.readText path) d (Files.readText d path) d
  gives_listNames (d : δ) (path : String) :
    toExecution.Gives (Workspace.listNames path) d (Files.listNames d path) d
  gives_isFile (d : δ) (path : String) :
    toExecution.Gives (Workspace.isFile path) d (Files.isFile d path) d
  gives_report (d : δ) (e : LogEntry) : toExecution.Gives (Workspace.report e) d () d
  gives_writeText {d d' : δ} {path text : String} (h : Files.writeText d path text = .ok d') :
    toExecution.Gives (Workspace.writeText path text) d (.ok ()) d'
  gives_writeText_error {d : δ} {path text : String} {e : FileError}
    (h : Files.writeText d path text = .error e) :
    toExecution.Gives (Workspace.writeText path text) d (.error e) d

namespace Interpretation

variable {m : Type → Type} [Monad m] [Workspace m] {δ : Type} [Files δ]

variable (I : Interpretation m δ)

theorem reads_readText (path : String) : I.Reads (Workspace.readText path) :=
  fun d => ⟨_, I.gives_readText d path⟩

theorem reads_report (e : LogEntry) : I.Reads (Workspace.report e) :=
  fun d => ⟨_, I.gives_report d e⟩

/-- Reports in a row leave the files alone. -/
theorem gives_reports (d : δ) (entries : List LogEntry) :
    I.Gives (entries.forM Workspace.report) d () d := by
  induction entries with
  | nil => exact Execution.gives_pure () d
  | cons e rest ih => exact (I.gives_report d e).bind ih

/-- The workspace that takes note only of important reports has the same files. -/
def filtered (level : LogLevel) : Interpretation (ReaderT LogLevel m) δ where
  State := I.State
  files := I.files
  exists_state := I.exists_state
  run x w := I.run (x level) w
  run_pure a w := I.run_pure a w
  run_bind x f w := I.run_bind (x level) (fun a => f a level) w
  gives_readText := I.gives_readText
  gives_listNames := I.gives_listNames
  gives_isFile := I.gives_isFile
  gives_report d e := by
    intro w hw
    show _ ∧ I.files (I.run (if e.reaches level then Workspace.report e else pure ()) w).2 = d
    split
    · exact I.gives_report d e w hw
    · exact Execution.gives_pure () d w hw
  gives_writeText h := I.gives_writeText h
  gives_writeText_error h := I.gives_writeText_error h

end Interpretation

/-! ## Workspaces in memory -/

/-- Walks whose steps succeed alike, with the same results, succeed alike. -/
theorem toOption_foldlM_congr {ε α β : Type} {f g : β → α → Except ε β}
    (h : ∀ b a, (f b a).toOption = (g b a).toOption) (l : List α) (b : β) :
    (l.foldlM f b).toOption = (l.foldlM g b).toOption := by
  -- the induction is on the steps: both walks stop at one of them, or go on with the same value
  induction l generalizing b with
  | nil => rfl
  | cons a rest ih =>
    rw [List.foldlM_cons, List.foldlM_cons]
    have hstep := h b a
    cases hf : f b a <;> cases hg : g b a <;> rw [hf, hg] at hstep
    · rfl
    · cases hstep
    · cases hstep
    · obtain rfl := Option.some.inj hstep
      exact ih _

namespace Memory

/-- The places of a workspace in memory, without its reports. -/
abbrev Places := SortedMap (List String) Content

/-- The workspace with given places and no reports. -/
def ofPlaces (d : Places) : Memory := { places := d }

instance : Files Places where
  readText d := (ofPlaces d).readText
  writeText d path text := ((ofPlaces d).writeText path text).map (·.places)
  listNames d := (ofPlaces d).listNames
  isFile d := (ofPlaces d).isFile

/-- The place of a file that a path leads to. -/
def place? (d : Places) (path : String) : Option (List String) :=
  match ((ofPlaces d).locate path).toOption with
  | some (.inside names) => if endsInDirectory path then none else some names
  | _ => none

/-- Reading gives the text that lies at the place of a path. -/
theorem readText_ofPlaces_eq_ok_iff {d : Places} {path text : String} :
    (ofPlaces d).readText path = .ok text ↔
      ∃ x, place? d path = some x ∧ (ofPlaces d).content? (.inside x) = some (.text text) := by
  unfold readText place?
  cases (ofPlaces d).locate path with
  | error e => simp [bind, Except.bind, Except.toOption]
  | ok place =>
    cases place with
    | outside => simp [bind, Except.bind, Except.toOption, content?]
    | inside names =>
      simp only [bind, Except.bind, Except.toOption]
      cases hcontent : (ofPlaces d).content? (.inside names) with
      | none => simp [hcontent]
      | some content =>
        -- a path that ends like that of a directory leads to no file
        cases content <;> by_cases hend : endsInDirectory path <;> simp [hcontent, hend]

/-- What a write that succeeds has found and leaves behind. -/
theorem exists_of_writeText {d d' : Places} {path text : String}
    (h : Files.writeText d path text = .ok d') :
    ∃ names, place? d path = some names ∧
      (ofPlaces d).content? (.inside names) ≠ some .directory ∧
      d' = d.insert names (.text text) := by
  simp only [Files.writeText, writeText] at h
  unfold place?
  -- a path that leads nowhere, or out of the workspace, is refused
  cases hlocate : (ofPlaces d).locate path with
  | error e =>
    rw [hlocate] at h
    cases h
  | ok place =>
    rw [hlocate] at h
    cases place with
    | outside => cases h
    | inside names =>
      simp only [bind, Except.bind] at h
      -- a file can be there or not; a path that can only be that of a directory is refused
      split at h
      · cases h
      · rename_i content hother hcontent
        split at h
        · cases h
        · split at h
          · cases h
          · rename_i hend
            refine ⟨names, by simp [Except.toOption, hend], ?_, (Except.ok.inj h).symm⟩
            rw [hcontent]
            intro hdirectory
            exact hother (Option.some.inj hdirectory)
      · rename_i hcontent
        split at h
        · cases h
        · split at h
          · cases h
          · rename_i hend
            refine ⟨names, by simp [Except.toOption, hend], ?_, (Except.ok.inj h).symm⟩
            rw [hcontent]
            simp

/-- Behind a write the place holds the text, and every other place what it held. -/
theorem content?_insert {d : Places} {names : List String} {text : String}
    (h : (ofPlaces d).content? (.inside names) ≠ some .directory) (place : Place) :
    (ofPlaces (d.insert names (.text text))).content? place =
      if place = .inside names then some (.text text) else (ofPlaces d).content? place := by
  cases place with
  | outside => rfl
  | inside other =>
    cases other with
    -- the top of the workspace is a directory, so no file is written there
    | nil =>
      have hne : names ≠ [] := by
        rintro rfl
        exact h rfl
      simp [content?, Ne.symm hne]
    -- any other place is looked up among the entries
    | cons name rest =>
      have hfind := SortedMap.find?_insert d names (.text text) (name :: rest)
      simp only [Std.LawfulEqOrd.compare_eq_iff_eq] at hfind
      simpa [content?, ofPlaces] using hfind

/-- A step of a path leads to the same place behind a write: a file that is made or replaced is no
    directory before and after. -/
theorem enter_insert {d : Places} {names : List String} {text : String}
    (h : (ofPlaces d).content? (.inside names) ≠ some .directory) (place : Place) (part : String) :
    ((ofPlaces (d.insert names (.text text))).enter place part).toOption =
      ((ofPlaces d).enter place part).toOption := by
  unfold enter
  rw [content?_insert h]
  by_cases hplace : place = .inside names
  · -- no step goes on from the place of a file, new or old
    subst hplace
    rw [if_pos rfl]
    cases hcontent : (ofPlaces d).content? (.inside names) with
    | none => rfl
    | some content =>
      cases content with
      | directory => exact absurd hcontent h
      | text old => rfl
      | binary => rfl
  · rw [if_neg hplace]

/-- A write leaves every path where it led. -/
theorem place?_insert {d : Places} {names : List String} {text : String}
    (h : (ofPlaces d).content? (.inside names) ≠ some .directory) (path : String) :
    place? (d.insert names (.text text)) path = place? d path := by
  -- the walk along the parts of the path goes the same steps
  have hlocate : ((ofPlaces (d.insert names (.text text))).locate path).toOption =
      ((ofPlaces d).locate path).toOption := by
    unfold locate
    split
    · rfl
    · split
      · rfl
      · split
        · rfl
        · exact toOption_foldlM_congr (enter_insert h) _ _
  unfold place?
  rw [hlocate]

instance : PlacedFiles Places where
  Place := List String
  place? := place?
  content? d names := (ofPlaces d).content? (.inside names)
  readText_eq_ok_iff := readText_ofPlaces_eq_ok_iff
  content?_writeText h := by
    obtain ⟨names, hplace, hcontent, rfl⟩ := exists_of_writeText h
    refine ⟨names, hplace, ?_, fun other hother => ?_⟩
    · rw [content?_insert hcontent, if_pos rfl]
    · rw [content?_insert hcontent, if_neg fun heq => hother (Place.inside.inj heq)]
  place?_writeText h := by
    obtain ⟨names, -, hcontent, rfl⟩ := exists_of_writeText h
    exact funext (place?_insert hcontent)

/-- A write changes the places and leaves the reports. -/
theorem writeText_eq (w : Memory) (path text : String) :
    w.writeText path text =
      (Files.writeText w.places path text).map fun d => { w with places := d } := by
  have hlocate : (ofPlaces w.places).locate path = w.locate path := rfl
  simp only [Files.writeText, writeText, hlocate]
  cases w.locate path with
  | error e => rfl
  | ok place =>
    cases place with
    | outside => rfl
    | inside names =>
      have hcontent : (ofPlaces w.places).content? (.inside names) =
          w.content? (.inside names) := rfl
      simp only [bind, Except.bind, hcontent]
      -- the file may be a directory, be there, or be missing
      split
      · rfl
      · cases endsInSlash path <;> cases endsInDirectory path <;> rfl
      · cases endsInSlash path <;> cases endsInDirectory path <;> rfl

/-- What the write of a workspace in memory answers and leaves. -/
theorem run_writeText (w : Memory) (path text : String) :
    (Workspace.writeText path text : StateM Memory _).run w =
      match Files.writeText w.places path text with
      | .error e => (.error e, w)
      | .ok d => (.ok (), { w with places := d }) := by
  have hwrite := writeText_eq w path text
  -- a write that is refused leaves the whole state as it is
  cases hplaces : Files.writeText w.places path text with
  | error e =>
    have hfails : w.writeText path text = .error e := by
      rw [hwrite, hplaces]
      rfl
    simp only [Workspace.writeText, StateT.run_bind, StateT.run_get, pure_bind, hfails]
    rfl
  | ok d =>
    have hdone : w.writeText path text = .ok { w with places := d } := by
      rw [hwrite, hplaces]
      rfl
    simp only [Workspace.writeText, StateT.run_bind, StateT.run_get, pure_bind, hdone]
    rfl

/-- Programs on a workspace in memory. -/
def execution : Execution (StateM Memory) Places where
  State := Memory
  files w := w.places
  exists_state d := ⟨ofPlaces d, rfl⟩
  run x w := x.run w
  run_pure _ _ := rfl
  run_bind _ _ _ := rfl

/-- The operations of a workspace in memory are those on its places. -/
def interpretation : Interpretation (StateM Memory) Places where
  toExecution := execution
  gives_readText := by
    rintro _ path w rfl
    exact ⟨rfl, rfl⟩
  gives_listNames := by
    rintro _ path w rfl
    exact ⟨rfl, rfl⟩
  gives_isFile := by
    rintro _ path w rfl
    exact ⟨rfl, rfl⟩
  gives_report := by
    rintro _ e w rfl
    exact ⟨rfl, rfl⟩
  gives_writeText := by
    rintro _ d' path text h w rfl
    have hrun := run_writeText w path text
    have hwrite : Files.writeText w.places path text = .ok d' := h
    rw [hwrite] at hrun
    exact ⟨congrArg Prod.fst hrun, congrArg (fun r => r.2.places) hrun⟩
  gives_writeText_error := by
    rintro _ path text e h w rfl
    have hrun := run_writeText w path text
    have hwrite : Files.writeText w.places path text = .error e := h
    rw [hwrite] at hrun
    exact ⟨congrArg Prod.fst hrun, congrArg (fun r => r.2.places) hrun⟩

end Memory

end Tinct
