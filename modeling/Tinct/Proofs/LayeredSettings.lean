import Mathlib.Data.List.Induction
import Tinct.Proofs.FileStates
import Tinct.Proofs.SettingTrees
import Tinct.Settings.Sources

/-!
# Settings from layers and overrides

Settings are made from documents in files and from overrides, which are given in any order.  Each
setting is by itself the last override of it, or else what the last document says that mentions it,
or else its default.  So what is set for one key makes no difference to another one, and sources
that set different keys can be given in either order.

## Key results

- `Layer.gives_load`: the document of a layer
- `ofDocuments_eq_ofTree`: settings of documents and overrides
- `exists_loads`: settings are made from any calls that fit, and each is the last value for it
- `loads_afterCalls`: and so they do not depend on anything else
-/

namespace Tinct

variable {δ : Type} [Files δ]

/-! ## Documents of layers -/

namespace Layer

/-- The path of the file of a layer: the given one, or the one with the usual extension. -/
def file? (d : δ) (path : String) : Option String :=
  if Files.isFile d path then some path
  else if (Path.fileName? path).isSome ∧ Files.isFile d (tidy path ++ ".toml") then
    some (tidy path ++ ".toml")
  else none

/-- The document of a layer.  One that is not required can be missing, and is empty then; but if
    there is a file, it has to hold a document. -/
def document? (d : δ) (l : Layer) : Option Settings.Document :=
  match file? d l.path with
  | none => if l.isRequired then none else some []
  | some found =>
    match Files.readText d found with
    | .ok text => (document found text).toOption
    | .error _ => none

variable {m : Type → Type} [Monad m] [Workspace m]

/-- Looking for a file answers what the files say and leaves them alone. -/
theorem gives_find? (I : Interpretation m δ) (d : δ) (path : String) :
    I.Gives (find? path) d (file? d path) d := by
  unfold find? file?
  refine (I.gives_isFile d path).bind ?_
  cases Files.isFile d path with
  | true => exact Execution.gives_pure _ d
  | false =>
    cases Path.fileName? path with
    | none => exact Execution.gives_pure _ d
    | some name =>
      refine (I.gives_isFile d (tidy path ++ ".toml")).bind ?_
      cases hfile : Files.isFile d (tidy path ++ ".toml") with
      | true => simpa using Execution.gives_pure _ d
      | false => simpa using Execution.gives_pure _ d

/-- A layer whose document can be read is loaded as this document. -/
theorem gives_load (I : Interpretation m δ) {d : δ} {l : Layer} {document : Settings.Document}
    (h : l.document? d = some document) : I.Gives l.load d (.ok document) d := by
  unfold document? at h
  cases hfile : file? d l.path with
  | none =>
    rw [hfile] at h
    -- without a file the layer is empty, unless it has to be there
    have htext : I.Gives (text l.path) d
        (.error (.missing ("configuration file \"" ++ l.path ++ "\" not found"))) d := by
      refine (gives_find? I d l.path).bind ?_
      rw [hfile]
      exact Execution.gives_pure _ d
    refine htext.bind ?_
    cases hrequired : l.isRequired with
    | true => simp [hrequired] at h
    | false =>
      obtain rfl : [] = document := by simpa [hrequired] using h
      exact Execution.gives_pure _ d
  | some found =>
    rw [hfile] at h
    dsimp only at h
    cases hread : Files.readText d found with
    | error e =>
      rw [hread] at h
      cases h
    | ok source =>
      rw [hread] at h
      -- a file that is found is read, and its text has the document
      have hdocument : Layer.document found source = .ok document := by
        cases hresult : Layer.document found source with
        | error e => simp [hresult, Except.toOption] at h
        | ok other =>
          obtain rfl : other = document := by simpa [hresult, Except.toOption] using h
          rfl
      have htext : I.Gives (text l.path) d (.ok (found, source)) d := by
        refine (gives_find? I d l.path).bind ?_
        rw [hfile]
        refine (I.gives_readText d found).bind ?_
        rw [hread]
        exact Execution.gives_pure _ d
      refine htext.bind ?_
      rw [← hdocument]
      exact Execution.gives_pure _ d

/-- So are several layers, in order. -/
theorem gives_loadAll (I : Interpretation m δ) {d : δ} {layers : List Layer}
    {documents : List Settings.Document}
    (h : layers.map (document? d) = documents.map some) :
    I.Gives (loadAll layers) d (.ok documents) d := by
  induction layers generalizing documents with
  | nil =>
    obtain rfl : documents = [] := by simpa using h.symm
    exact Execution.gives_pure _ d
  | cons l rest ih =>
    cases documents with
    | nil => simp at h
    | cons document documents =>
      obtain ⟨hl, hrest⟩ := List.cons.inj h
      refine (gives_load I hl).bind ?_
      exact (ih hrest).bind (Execution.gives_pure _ d)

end Layer

namespace Settings

/-! ## Settings of documents -/

/-- The assignments of a document, whose names can be paths. -/
def Document.assignments (document : Document) : List Assignment :=
  document.map fun e => (.ofName e.1, e.2)

/-- A document is put into a tree as its assignments are. -/
theorem putAll_eq_assign (document : Document) (tree : Setting) :
    SettingPath.putAll document tree = assign document.assignments tree := by
  rw [assign, Document.assignments, List.foldl_map]
  rfl

/-- Documents and overrides are one run of assignments. -/
theorem ofDocuments_eq_ofTree (documents : List Document) (overrides : List Assignment) :
    ofDocuments documents overrides =
      ofTree (assign (documents.flatMap Document.assignments ++ overrides) defaultTree) := by
  have hdocuments : ∀ tree, documents.foldl (fun tree d => SettingPath.putAll d tree) tree =
      assign (documents.flatMap Document.assignments) tree := by
    induction documents with
    | nil => exact fun tree => rfl
    | cons document rest ih =>
      intro tree
      rw [List.foldl_cons, ih, putAll_eq_assign, List.flatMap_cons, assign_append]
  unfold ofDocuments
  rw [hdocuments, assign_append]
  rfl

/-- The last value that a run of assignments has for a key, or else its default. -/
def Key.lastIn? (k : Key) (assignments : List Assignment) : Option k.kind.Value :=
  match (k.valuesInAll assignments).getLast? with
  | some v => k.kind.read? v
  | none => some (({} : Settings).value k)

/-- Assignments that fit give every key a value. -/
theorem isSome_lastIn? {assignments : List Assignment} (h : ∀ a ∈ assignments, a.Fits) (k : Key) :
    (k.lastIn? assignments).isSome := by
  unfold Key.lastIn?
  cases hlast : (k.valuesInAll assignments).getLast? with
  | none => rfl
  | some v =>
    obtain ⟨a, ha, hv⟩ := List.mem_flatMap.mp (List.mem_of_getLast? hlast)
    exact (h a ha).isSome_read? k v hv

/-- After a run of assignments over the defaults, the settings are the last values. -/
theorem exists_ofTree_assign {assignments : List Assignment} (h : ∀ a ∈ assignments, a.Fits) :
    ∃ settings, ofTree (assign assignments defaultTree) = .ok settings ∧
      ∀ k, k.lastIn? assignments = some (settings.value k) := by
  -- `x` is what the assignments make of the keys, and the defaults of those they leave out
  obtain ⟨x, hx⟩ : ∃ x : (k : Key) → k.kind.Value, ∀ k, k.lastIn? assignments = some (x k) :=
    ⟨fun k => Option.get _ (isSome_lastIn? h k), fun k => (Option.some_get _).symm⟩
  refine ⟨ofValues x, ofTree_eq_ok (hasSections_assign h hasSections_defaultTree) fun k => ?_,
    fun k => ?_⟩
  · rw [in?_assign h]
    have hk := hx k
    unfold Key.lastIn? at hk
    -- a key that is not assigned is still at its default
    cases hlast : (k.valuesInAll assignments).getLast? with
    | none =>
      rw [hlast] at hk
      obtain ⟨v, hv, hread⟩ := in?_defaultTree k
      exact ⟨v, hv, hread.trans hk⟩
    | some v =>
      rw [hlast] at hk
      exact ⟨v, rfl, hk⟩
  · rw [value_ofValues]
    exact hx k

end Settings

/-! ## Calls -/

open Settings

/-- A call that adds a source of settings. -/
inductive Call where
  | layer (l : Layer)
  | override (key : String) (v : Setting)

/-- The sources after a call. -/
def Sources.add (s : Sources) : Call → Except SettingsError Sources
  | .layer ⟨path, true⟩ => .ok (s.withFile path)
  | .layer ⟨path, false⟩ => .ok (s.withOptionalFile path)
  | .override key v => s.withOverride key v

namespace Call

/-- The layer that a call adds. -/
def layer? : Call → Option Layer
  | layer l => some l
  | override _ _ => none

/-- What a call assigns: the entries of its document, or its value. -/
def assignments (d : δ) : Call → List Assignment
  | layer l => (l.document? d).elim [] Document.assignments
  | override key v => (SettingPath.parse key).toOption.elim [] fun path => [(path, v)]

/-- The assignments of the overrides among calls. -/
def overridesIn (d : δ) (calls : List Call) : List Assignment :=
  (calls.filter (·.layer?.isNone)).flatMap (assignments d)

/-- The assignments of the layers among calls. -/
def layersIn (d : δ) (calls : List Call) : List Assignment :=
  (calls.filter (·.layer?.isSome)).flatMap (assignments d)

end Call

/-- The path names no whole section. -/
def SettingPath.IsSingle (path : SettingPath) : Prop :=
  ∀ k : Key, path.steps = [] → lowercase path.first ≠ k.home.key

/-- The call adds a document whose sections are tables of settings of the right kinds, or overrides
    a single setting with one of the right kind. -/
inductive Call.Fits (d : δ) : Call → Prop where
  | layer {l : Layer} {document : Document} (hdocument : l.document? d = some document)
      (hfits : ∀ a ∈ document.assignments, a.Fits) : Fits d (.layer l)
  | override {key : String} {v : Setting} {path : SettingPath}
      (hpath : SettingPath.parse key = .ok path) (hsingle : path.IsSingle)
      (hfits : Assignment.Fits (path, v)) : Fits d (.override key v)

namespace Sources

/-- The sources that calls lead to. -/
structure Holds (d : δ) (calls : List Call) (s : Sources) : Prop where
  layers_eq : s.layers = calls.filterMap Call.layer?
  fits : ∀ a ∈ s.overrides, Assignment.Fits a
  /-- Earlier overrides may be gone, but not the last ones. -/
  getLast?_eq : ∀ k : Key, (k.valuesInAll s.overrides).getLast? =
    (k.valuesInAll (Call.overridesIn d calls)).getLast?

/-- A path that names no section names a setting, or it does not. -/
theorem valuesIn_of_isSingle {path : SettingPath} (h : path.IsSingle) (k : Key) :
    (∀ v, k.valuesIn (path, v) = []) ∨ ∀ v, k.valuesIn (path, v) = [v] := by
  obtain ⟨first, steps⟩ := path
  unfold Key.valuesIn
  match steps with
  | [] => exact .inl fun v => if_neg (h k rfl)
  | [.name name] =>
    by_cases hk : first = k.home.key ∧ lowercase name = k.name
    · exact .inr fun v => if_pos hk
    · exact .inl fun v => if_neg hk
  | [.position _] | .name _ :: _ :: _ | .position _ :: _ :: _ => exact .inl fun v => rfl

/-- Without the earlier overrides with its path, an override has the same effect on every key. -/
theorem getLast?_valuesInAll_replace {path : SettingPath} (h : path.IsSingle)
    (overrides : List Assignment) (v : Setting) (k : Key) :
    (k.valuesInAll (overrides.filter (·.1 ≠ path) ++ [(path, v)])).getLast? =
      (k.valuesInAll (overrides ++ [(path, v)])).getLast? := by
  rw [getLast?_valuesInAll_append, getLast?_valuesInAll_append]
  rcases valuesIn_of_isSingle h k with hnone | hone
  · -- what is left out does not name the key either
    have hfilter : k.valuesInAll (overrides.filter (·.1 ≠ path)) = k.valuesInAll overrides := by
      unfold Key.valuesInAll
      induction overrides with
      | nil => rfl
      | cons a rest ih =>
        by_cases ha : a.1 = path
        · have hnames : k.valuesIn a = [] := by
            rw [← ha] at hnone
            exact hnone a.2
          simpa [ha, hnames] using ih
        · simpa [ha] using ih
    rw [hfilter]
  · -- the value is in force in both, since it comes last
    have hvalues : k.valuesInAll [(path, v)] = [v] := by simp [Key.valuesInAll, hone v]
    rw [hvalues]
    rfl

/-- A call that fits is carried out. -/
theorem exists_add {d : δ} {calls : List Call} {c : Call} {s : Sources} (hs : s.Holds d calls)
    (hc : c.Fits d) : ∃ s', s.add c = .ok s' ∧ s'.Holds d (calls ++ [c]) := by
  cases hc with
  | @layer l document hdocument hfits =>
    have hlayers : (calls ++ [Call.layer l]).filterMap Call.layer? =
        calls.filterMap Call.layer? ++ [l] := by simp [Call.layer?]
    have hoverrides : Call.overridesIn d (calls ++ [Call.layer l]) = Call.overridesIn d calls := by
      simp [Call.overridesIn, Call.layer?]
    -- a layer is added behind the others, and the overrides stay
    have hadd : s.add (.layer l) = .ok { s with layers := s.layers ++ [l] } := by
      obtain ⟨path, required⟩ := l
      cases required <;> rfl
    refine ⟨_, hadd, ?_, hs.fits, ?_⟩
    · rw [hlayers, ← hs.layers_eq]
    · rw [hoverrides]
      exact hs.getLast?_eq
  | @override key v path hpath hsingle hfits =>
    have hlayers : (calls ++ [Call.override key v]).filterMap Call.layer? =
        calls.filterMap Call.layer? := by simp [Call.layer?]
    have hoverrides : Call.overridesIn d (calls ++ [Call.override key v]) =
        Call.overridesIn d calls ++ [(path, v)] := by
      simp [Call.overridesIn, Call.layer?, Call.assignments, hpath, Except.toOption]
    -- an override takes the place of the one for its path
    have hadd : s.add (.override key v) =
        .ok { s with overrides := s.overrides.filter (·.1 ≠ path) ++ [(path, v)] } := by
      rw [add, withOverride, hpath]
    refine ⟨_, hadd, ?_, ?_, fun k => ?_⟩
    · rw [hlayers, ← hs.layers_eq]
    · intro a ha
      rcases List.mem_append.mp ha with hold | hnew
      · exact hs.fits a (List.mem_filter.mp hold).1
      · obtain rfl := List.mem_singleton.mp hnew
        exact hfits
    · rw [hoverrides, getLast?_valuesInAll_replace hsingle, getLast?_valuesInAll_append,
        getLast?_valuesInAll_append, hs.getLast?_eq k]

/-- Calls that fit are carried out one after the other. -/
theorem exists_foldlM_add {d : δ} {calls : List Call} (h : ∀ c ∈ calls, c.Fits d) :
    ∃ s, calls.foldlM add {} = .ok s ∧ s.Holds d calls := by
  induction calls using List.reverseRecOn with
  | nil => exact ⟨{}, rfl, rfl, by simp, fun k => rfl⟩
  | append_singleton calls c ih =>
    obtain ⟨s, hrun, hs⟩ := ih fun c hc => h c (List.mem_append_left _ hc)
    obtain ⟨s', hadd, hs'⟩ := exists_add hs (h c (by simp))
    refine ⟨s', ?_, hs'⟩
    rw [List.foldlM_append, hrun]
    show [c].foldlM add s = .ok s'
    rw [List.foldlM_cons, hadd]
    rfl

end Sources

/-! ## Settings of calls -/

namespace Settings

variable {d : δ} {calls : List Call}

/-- The layers of calls that fit have documents. -/
theorem exists_documents (h : ∀ c ∈ calls, c.Fits d) :
    ∃ documents : List Document,
      (calls.filterMap Call.layer?).map (Layer.document? d) = documents.map some ∧
      documents.flatMap Document.assignments = Call.layersIn d calls ∧
      ∀ a ∈ Call.layersIn d calls, Assignment.Fits a := by
  induction calls with
  | nil => exact ⟨[], rfl, rfl, by simp [Call.layersIn]⟩
  | cons c rest ih =>
    obtain ⟨hc, hrest⟩ := List.forall_mem_cons.mp h
    obtain ⟨documents, hdocuments, hassignments, hfits⟩ := ih hrest
    cases hc with
    -- the document of a layer comes in front of those behind it
    | @layer l document hdocument hfits' =>
      have hlayers : Call.layersIn d (.layer l :: rest) =
          document.assignments ++ Call.layersIn d rest := by
        simp [Call.layersIn, Call.layer?, Call.assignments, hdocument]
      refine ⟨document :: documents, ?_, ?_, ?_⟩
      · simp [Call.layer?, hdocument, hdocuments]
      · rw [List.flatMap_cons, hassignments, hlayers]
      · rw [hlayers]
        intro a ha
        rcases List.mem_append.mp ha with hfirst | hlater
        · exact hfits' a hfirst
        · exact hfits a hlater
    -- an override has no document
    | @override key v path hpath hsingle hfits' =>
      have hlayers : Call.layersIn d (.override key v :: rest) = Call.layersIn d rest := by
        simp [Call.layersIn, Call.layer?]
      rw [hlayers]
      exact ⟨documents, hdocuments, hassignments, hfits⟩

/-- The value of a key after calls: its last override, or else the last value in a layer, or else
    its default. -/
def Key.afterCalls? (k : Key) (d : δ) (calls : List Call) : Option k.kind.Value :=
  match (k.valuesInAll (Call.overridesIn d calls)).getLast?.or
      (k.valuesInAll (Call.layersIn d calls)).getLast? with
  | some v => k.kind.read? v
  | none => some (({} : Settings).value k)

variable {m : Type → Type} [Monad m] [Workspace m]

/-- The calls are carried out, and loading the sources gives the settings. -/
def Loads (I : Interpretation m δ) (d : δ) (calls : List Call) (settings : Settings) : Prop :=
  ∃ sources, calls.foldlM Sources.add {} = .ok sources ∧ I.Gives sources.load d (.ok settings) d

/-- Calls load one record of settings at most. -/
theorem Loads.unique {I : Interpretation m δ} {settings other : Settings}
    (h : Loads I d calls settings) (hother : Loads I d calls other) : settings = other := by
  obtain ⟨sources, hrun, hload⟩ := h
  obtain ⟨sources', hrun', hload'⟩ := hother
  obtain rfl := Except.ok.inj (hrun.symm.trans hrun')
  exact Except.ok.inj (hload.unique hload').1

/-- Calls that fit give settings, and each of them is the last value for its key. -/
theorem exists_loads (I : Interpretation m δ) (h : ∀ c ∈ calls, c.Fits d) :
    ∃ settings, Loads I d calls settings ∧
      ∀ k : Key, k.afterCalls? d calls = some (settings.value k) := by
  obtain ⟨sources, hrun, hsources⟩ := Sources.exists_foldlM_add h
  obtain ⟨documents, hdocuments, hassignments, hlayers⟩ := exists_documents h
  -- what the layers and overrides assign fits, so the tree is read as settings
  have hfits : ∀ a ∈ documents.flatMap Document.assignments ++ sources.overrides,
      Assignment.Fits a := by
    rw [hassignments]
    intro a ha
    rcases List.mem_append.mp ha with hlayer | hoverride
    · exact hlayers a hlayer
    · exact hsources.fits a hoverride
  obtain ⟨settings, htree, hvalue⟩ := exists_ofTree_assign hfits
  refine ⟨settings, ⟨sources, hrun, ?_⟩, fun k => ?_⟩
  · -- the layers are loaded one by one, and their documents are read into settings
    have hload : I.Gives (Layer.loadAll sources.layers) d (.ok documents) d := by
      rw [hsources.layers_eq]
      exact Layer.gives_loadAll I hdocuments
    refine hload.bind ?_
    rw [← htree, ← ofDocuments_eq_ofTree]
    exact Execution.gives_pure _ d
  · rw [← hvalue k]
    unfold Key.afterCalls? Key.lastIn?
    rw [hassignments, getLast?_valuesInAll_append, hsources.getLast?_eq k]

/-- The call assigns something to the key. -/
def Call.Mentions (d : δ) (c : Call) (k : Key) : Prop := k.valuesInAll (c.assignments d) ≠ []

/-- What calls that fit load has the value of every key behind them. -/
theorem Loads.afterCalls?_eq {I : Interpretation m δ} {settings : Settings}
    (h : Loads I d calls settings) (hfits : ∀ c ∈ calls, c.Fits d) (k : Key) :
    k.afterCalls? d calls = some (settings.value k) := by
  obtain ⟨other, hother, hvalue⟩ := exists_loads I hfits
  rw [h.unique hother]
  exact hvalue k

/-- A call that does not mention a key gives it no value, whatever calls are picked. -/
theorem valuesInAll_filter_insert (p : Call → Bool) {front back : List Call} {c : Call} {k : Key}
    (h : ¬Call.Mentions d c k) :
    k.valuesInAll (((front ++ c :: back).filter p).flatMap (Call.assignments d)) =
      k.valuesInAll (((front ++ back).filter p).flatMap (Call.assignments d)) := by
  have hc : (c.assignments d).flatMap k.valuesIn = [] := not_not.mp h
  unfold Key.valuesInAll
  rw [List.filter_append, List.filter_append, List.filter_cons]
  split
  · simp [List.flatMap_append, hc]
  · rfl

/-- A call that does not mention a key makes no difference to it. -/
theorem afterCalls?_insert {front back : List Call} {c : Call} {k : Key}
    (h : ¬Call.Mentions d c k) :
    k.afterCalls? d (front ++ c :: back) = k.afterCalls? d (front ++ back) := by
  unfold Key.afterCalls? Call.overridesIn Call.layersIn
  rw [valuesInAll_filter_insert _ h, valuesInAll_filter_insert _ h]

/-- The order of two calls makes no difference to a key that one of them does not mention. -/
theorem afterCalls?_swap {front back : List Call} {a b : Call} {k : Key}
    (h : ¬(Call.Mentions d a k ∧ Call.Mentions d b k)) :
    k.afterCalls? d (front ++ a :: b :: back) = k.afterCalls? d (front ++ b :: a :: back) := by
  have hbehind : ∀ x y : Call, front ++ x :: y :: back = (front ++ [x]) ++ y :: back := by simp
  by_cases ha : Call.Mentions d a k
  · have hb : ¬Call.Mentions d b k := fun hb => h ⟨ha, hb⟩
    rw [hbehind a b, afterCalls?_insert hb, afterCalls?_insert hb]
    simp
  · rw [hbehind b a, afterCalls?_insert ha, afterCalls?_insert ha]
    simp

/-- Settings with the same values are the same. -/
theorem eq_of_value_eq {s other : Settings} (h : ∀ k : Key, s.value k = other.value k) :
    s = other := by
  rw [← ofValues_value s, ← ofValues_value other, funext h]

/-- Calls that fit give settings, in which each key has its last override, or else the last value in
    a layer, or else its default.  A call makes no difference to the keys that it does not mention,
    and two calls without a common key can change places. -/
theorem loads_afterCalls (I : Interpretation m δ) (d : δ) :
    (∀ calls : List Call, (∀ c ∈ calls, c.Fits d) → ∃ settings, Loads I d calls settings ∧
      ∀ k : Key, k.afterCalls? d calls = some (settings.value k)) ∧
    (∀ front c back, (∀ c' ∈ front ++ c :: back, Call.Fits d c') → ∀ k, ¬Call.Mentions d c k →
      ∀ settings other, Loads I d (front ++ back) settings → Loads I d (front ++ c :: back) other →
        other.value k = settings.value k) ∧
    ∀ front a b back, (∀ c ∈ front ++ a :: b :: back, Call.Fits d c) →
      (∀ k, ¬(Call.Mentions d a k ∧ Call.Mentions d b k)) →
      ∀ settings, Loads I d (front ++ a :: b :: back) settings →
        Loads I d (front ++ b :: a :: back) settings := by
  refine ⟨fun calls h => exists_loads I h, ?_, ?_⟩
  · intro front c back h k hc settings other hsettings hother
    have hshorter : ∀ c' ∈ front ++ back, Call.Fits d c' := by
      intro c' hc'
      refine h c' (List.mem_append.mpr ?_)
      exact (List.mem_append.mp hc').imp_right (List.mem_cons_of_mem c)
    -- both records have what the calls say, and these say the same about the key
    have hvalue := hsettings.afterCalls?_eq hshorter k
    rw [← afterCalls?_insert hc, hother.afterCalls?_eq h k] at hvalue
    exact Option.some.inj hvalue
  · intro front a b back h hdisjoint settings hsettings
    have hswapped : ∀ c ∈ front ++ b :: a :: back, Call.Fits d c := by
      intro c hc
      exact h c ((List.Perm.append_left front (List.Perm.swap a b back)).mem_iff.mp hc)
    obtain ⟨other, hother, hvalue⟩ := exists_loads I hswapped
    -- the other order loads something, and its values are the same
    have hsame : other = settings := by
      refine eq_of_value_eq fun k => Option.some.inj ?_
      rw [← hvalue, ← afterCalls?_swap (hdisjoint k), hsettings.afterCalls?_eq h k]
    exact hsame ▸ hother

/-- Two documents, one that is missing, and an override in front of them all. -/
theorem value_of_two_layers :
    let d : Memory.Places := .ofList
      [(["a.toml"], .text "[output]\npretty=true"), (["b.toml"], .text "output.pretty=false")]
    let calls := [.override "lexing.tab_size" (.scalar none (.integer 2)), .layer ⟨"c.toml", false⟩,
      .layer ⟨"a.toml", true⟩, Call.layer ⟨"b.toml", true⟩]
    ∃ settings, Loads Memory.interpretation d calls settings ∧
      settings = ⟨⟨true, true, true, 2⟩, false, ".tokens.json", []⟩ := by
  intro d calls
  -- the documents of the layers are computed
  have hlayer : ∀ l : Layer, ∀ h : (l.document? d).isSome,
      (∀ a ∈ Document.assignments (Option.get _ h), Assignment.Fits a) → Call.Fits d (.layer l) :=
    fun l h => .layer (Option.some_get h).symm
  have hfits : ∀ c ∈ calls, c.Fits d := by
    intro c hc
    simp only [calls, List.mem_cons, List.not_mem_nil, or_false] at hc
    rcases hc with rfl | rfl | rfl | rfl
    · have hpath : SettingPath.parse "lexing.tab_size" = .ok ⟨"lexing", [.name "tab_size"]⟩ := by
        decide +kernel
      exact .override hpath (fun k h => absurd h (List.cons_ne_nil _ _)) (by decide +kernel)
    · exact hlayer _ (by decide +kernel) (by decide +kernel)
    · exact hlayer _ (by decide +kernel) (by decide +kernel)
    · exact hlayer _ (by decide +kernel) (by decide +kernel)
  obtain ⟨settings, hloads, hvalue⟩ := (loads_afterCalls Memory.interpretation d).1 calls hfits
  -- a key has a value, and the values of all keys are computed
  refine ⟨settings, hloads, eq_of_value_eq fun k => Option.some.inj ?_⟩
  rw [← hvalue k]
  revert k
  decide +kernel

end Settings

end Tinct
