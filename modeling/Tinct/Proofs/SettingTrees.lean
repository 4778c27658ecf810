import Tinct.Settings

/-!
# Settings in a tree

A tree of settings takes in one assignment after the other: a value for a path.  A path can name a
setting, or a whole section, whose table is merged into the one that is there.  As long as no
assignment puts something else in the place of a section, or something into a setting, the tree
holds for each setting the last value that was assigned to it.

## Key results

- `entry?_storeAll`: merging a table changes the entries that it has, and no others
- `in?_put`: one assignment changes the settings that it names, and no others
- `in?_assign`: after a run of assignments a setting is the last value that was assigned to it
- `ofTree_eq_ok`: settings are read from a tree that has values of the right kinds
-/

namespace Tinct

namespace Setting

/-! ## Entries of tables -/

/-- The setting is a table. -/
def IsTable (s : Setting) : Prop := ∃ origin entries, s = table origin entries

instance (s : Setting) : Decidable s.IsTable :=
  match s with
  | table origin entries => isTrue ⟨origin, entries, rfl⟩
  | missing | scalar _ _ | list _ _ => isFalse (by rintro ⟨_, _, h⟩; cases h)

theorem isTable_withEntries (s : Setting) (entries : List (String × Setting)) :
    (s.withEntries entries).IsTable := by
  cases s <;> exact ⟨_, _, rfl⟩

@[simp]
theorem entries_withEntries (s : Setting) (entries : List (String × Setting)) :
    (s.withEntries entries).entries = entries := by
  cases s <;> rfl

/-- An entry that is put is found, and the others stay. -/
theorem entry?_withEntries_putEntry (s v : Setting) (name other : String) :
    entry? (s.withEntries (putEntry name v s.entries)) other =
      if other = name then some v else s.entry? other := by
  unfold entry?
  rw [entries_withEntries, lookup_putEntry]

/-- A table is stored entry by entry, in the table that is there. -/
theorem store_table (s : Setting) (name : String) (origin : Option String)
    (entries : List (String × Setting)) :
    s.store name (table origin entries) =
      s.withEntries (putEntry (lowercase name)
        (storeAll ((s.entry? (lowercase name)).getD (table none [])) entries) s.entries) := by
  rw [store]
  rfl

/-- Any other value is stored as it is. -/
theorem store_of_not_isTable {v : Setting} (h : ¬v.IsTable) (s : Setting) (name : String) :
    s.store name v = s.withEntries (putEntry (lowercase name) v s.entries) := by
  cases v with
  | table origin entries => exact absurd ⟨origin, entries, rfl⟩ h
  | _ => rw [store]; simp

/-- What something is stored in is a table. -/
theorem isTable_store (s : Setting) (name : String) (v : Setting) : (s.store name v).IsTable := by
  by_cases h : v.IsTable
  · obtain ⟨origin, entries, rfl⟩ := h
    rw [store_table]
    exact isTable_withEntries _ _
  · rw [store_of_not_isTable h]
    exact isTable_withEntries _ _

/-- Storing leaves the entries of other names. -/
theorem entry?_store_of_ne {name other : String} (h : other ≠ lowercase name) (s v : Setting) :
    entry? (s.store name v) other = s.entry? other := by
  by_cases hv : v.IsTable
  · obtain ⟨origin, entries, rfl⟩ := hv
    rw [store_table, entry?_withEntries_putEntry, if_neg h]
  · rw [store_of_not_isTable hv, entry?_withEntries_putEntry, if_neg h]

/-- A table stays one when several entries are stored. -/
theorem isTable_storeAll {s : Setting} (h : s.IsTable) (entries : List (String × Setting)) :
    (storeAll s entries).IsTable := by
  induction entries generalizing s with
  | nil => exact h
  | cons e rest ih =>
    rw [storeAll]
    exact ih (isTable_store s e.1 e.2)

/-- The values for a name, which the entries may have in letters of any case. -/
def valuesOf (name : String) (entries : List (String × Setting)) : List Setting :=
  (entries.filter fun e => lowercase e.1 = name).map (·.2)

/-- Merging a table gives a name the last value that the table has for it. -/
theorem entry?_storeAll {name : String} {entries : List (String × Setting)}
    (h : ∀ v ∈ valuesOf name entries, ¬v.IsTable) (s : Setting) :
    entry? (storeAll s entries) name = (valuesOf name entries).getLast?.or (s.entry? name) := by
  induction entries generalizing s with
  | nil => rfl
  | cons e rest ih =>
    rw [storeAll]
    by_cases hname : lowercase e.1 = name
    · -- an entry of this name replaces the value, unless a later one does
      have hvalues : valuesOf name (e :: rest) = e.2 :: valuesOf name rest := by
        simp [valuesOf, hname]
      rw [hvalues] at h ⊢
      rw [ih (fun v hv => h v (List.mem_cons_of_mem _ hv)),
        store_of_not_isTable (h e.2 List.mem_cons_self), entry?_withEntries_putEntry,
        if_pos hname.symm, List.getLast?_cons]
      cases (valuesOf name rest).getLast? <;> rfl
    · have hvalues : valuesOf name (e :: rest) = valuesOf name rest := by
        simp [valuesOf, hname]
      rw [hvalues] at h ⊢
      rw [ih h, entry?_store_of_ne (Ne.symm hname)]

/-- What has a value put at a name in it is a table. -/
theorem isTable_putAt_name (v : Setting) (name : String) (steps : List Step) (s : Setting) :
    (SettingPath.putAt v (.name name :: steps) s).IsTable := by
  cases steps with
  | nil => exact isTable_store s name v
  | cons step steps =>
    rw [SettingPath.putAt]
    · exact isTable_withEntries _ _
    · simp

/-- A path leaves all entries alone but that of its first name. -/
theorem entry?_putAt_of_ne {name other : String} {steps : List Step}
    (h : other ≠ if steps = [] then lowercase name else name) (v s : Setting) :
    entry? (SettingPath.putAt v (.name name :: steps) s) other = s.entry? other := by
  cases steps with
  | nil =>
    rw [if_pos rfl] at h
    exact entry?_store_of_ne h s v
  | cons step steps =>
    rw [if_neg (List.cons_ne_nil step steps)] at h
    rw [SettingPath.putAt, entry?_withEntries_putEntry, if_neg h]
    -- a path with a further step does not store at its first name
    simp

/-! ## Values without a conversion -/

/-- The truth value that a setting is. -/
def truth? : Setting → Option Bool
  | scalar _ (.bool b) => some b
  | _ => none

/-- The natural number that a setting is. -/
def natural? : Setting → Option Nat
  | scalar _ (.integer n) => if 0 ≤ n ∧ n ≤ largest then some n.toNat else none
  | _ => none

/-- The text that a setting is. -/
def text? : Setting → Option String
  | scalar _ (.text t) => some t
  | _ => none

/-- The list of texts that a setting is. -/
def texts? : Setting → Option (List String)
  | list _ items => items.mapM text?
  | _ => none

/-- A value that says true or false is read so. -/
theorem toBool_of_truth? {v : Setting} {b : Bool} (h : v.truth? = some b) (key : String) :
    v.toBool key = .ok b := by
  unfold truth? at h
  split at h <;> cases h
  rfl

/-- A value that is a natural number is read as this number. -/
theorem toNat_of_natural? {v : Setting} {n : Nat} (h : v.natural? = some n) (key : String) :
    v.toNat key = .ok n := by
  unfold natural? at h
  split at h
  · split at h <;> cases h
    rename_i hrange
    exact if_pos hrange.1
  · cases h

/-- A value that is a text is read as this text. -/
theorem toText_of_text? {v : Setting} {t : String} (h : v.text? = some t) (key : String) :
    v.toText key = .ok t := by
  unfold text? at h
  split at h <;> cases h
  rfl

/-- A value that is a list of texts is read as this list. -/
theorem toTexts_of_texts? {v : Setting} {ts : List String} (h : v.texts? = some ts)
    (key : String) : v.toTexts key = .ok ts := by
  unfold texts? at h
  split at h
  · rename_i origin items
    -- the items are read under their numbers, so the induction is on the items from any number on
    have hitems : ∀ n, (items.zipIdx n).mapM (fun p => p.1.toText (itemKey key p.2)) = .ok ts := by
      induction items generalizing ts with
      | nil =>
        obtain rfl := Option.some.inj h
        exact fun n => rfl
      | cons item rest ih =>
        intro n
        rw [List.mapM_cons] at h
        obtain ⟨t, ht, h⟩ := Option.bind_eq_some_iff.mp h
        obtain ⟨ts', hts', h⟩ := Option.bind_eq_some_iff.mp h
        obtain rfl := Option.some.inj h
        rw [List.zipIdx_cons, List.mapM_cons, toText_of_text? ht, ih hts']
        rfl
    exact hitems 0
  · cases h

end Setting

namespace Settings

/-! ## Keys and kinds -/

/-- The kinds of settings. -/
inductive Kind where
  | truth
  | number
  | text
  | texts
deriving DecidableEq, Repr

/-- The values of a kind. -/
def Kind.Value : Kind → Type
  | truth => Bool
  | number => Nat
  | text => String
  | texts => List String

instance : (kind : Kind) → DecidableEq kind.Value
  | .truth => inferInstanceAs (DecidableEq Bool)
  | .number => inferInstanceAs (DecidableEq Nat)
  | .text => inferInstanceAs (DecidableEq String)
  | .texts => inferInstanceAs (DecidableEq (List String))

/-- The value of a setting that has the kind already. -/
def Kind.read? : (kind : Kind) → Setting → Option kind.Value
  | truth => Setting.truth?
  | number => Setting.natural?
  | text => Setting.text?
  | texts => Setting.texts?

/-- What can be set. -/
inductive Key where
  | normalizeLineEndings
  | stripNewlines
  | ensureTrailingNewline
  | tabSize
  | pretty
  | tokenFileSuffix
  | themeDirs
deriving DecidableEq, Repr

namespace Key

/-- The section of a key. -/
def home : Key → Section
  | normalizeLineEndings | stripNewlines | ensureTrailingNewline | tabSize => lexing
  | pretty | tokenFileSuffix => output
  | themeDirs => themes

/-- The name of a key in its section. -/
def name : Key → String
  | normalizeLineEndings => "normalize_line_endings"
  | stripNewlines => "strip_newlines"
  | ensureTrailingNewline => "ensure_trailing_newline"
  | tabSize => "tab_size"
  | pretty => "pretty"
  | tokenFileSuffix => "token_file_suffix"
  | themeDirs => "search_paths"

/-- The kind of a key. -/
def kind : Key → Kind
  | tabSize => .number
  | tokenFileSuffix => .text
  | themeDirs => .texts
  | _ => .truth

/-- All keys. -/
def all : List Key :=
  [normalizeLineEndings, stripNewlines, ensureTrailingNewline, tabSize, pretty, tokenFileSuffix,
    themeDirs]

theorem mem_all (k : Key) : k ∈ all := by
  cases k <;> decide

instance {P : Key → Prop} [DecidablePred P] : Decidable (∀ k, P k) :=
  decidable_of_iff (∀ k ∈ all, P k) ⟨fun h k => h k k.mem_all, fun h k _ => h k⟩

end Key

/-- The value of a key. -/
def value (s : Settings) : (k : Key) → k.kind.Value
  | .normalizeLineEndings => s.preparation.normalizeLineEndings
  | .stripNewlines => s.preparation.stripNewlines
  | .ensureTrailingNewline => s.preparation.ensureTrailingNewline
  | .tabSize => s.preparation.tabSize
  | .pretty => s.pretty
  | .tokenFileSuffix => s.tokenFileSuffix
  | .themeDirs => s.themeDirs

/-- The settings with given values. -/
def ofValues (x : (k : Key) → k.kind.Value) : Settings where
  preparation :=
    { normalizeLineEndings := x .normalizeLineEndings
      stripNewlines := x .stripNewlines
      ensureTrailingNewline := x .ensureTrailingNewline
      tabSize := x .tabSize }
  pretty := x .pretty
  tokenFileSuffix := x .tokenFileSuffix
  themeDirs := x .themeDirs

theorem value_ofValues (x : (k : Key) → k.kind.Value) (k : Key) : (ofValues x).value k = x k := by
  cases k <;> rfl

/-- Settings are determined by their values. -/
theorem ofValues_value (s : Settings) : ofValues s.value = s := rfl

/-! ## Assignments -/

/-- A value for a path. -/
abbrev Assignment := SettingPath × Setting

/-- The values that an assignment has for a key: its own value if it names the key, and those in the
    table if it names the section.  Letters count in either case where a value is stored. -/
def Key.valuesIn (k : Key) (a : Assignment) : List Setting :=
  match a.1.steps with
  | [] => if lowercase a.1.first = k.home.key then Setting.valuesOf k.name a.2.entries else []
  | [.name name] => if a.1.first = k.home.key ∧ lowercase name = k.name then [a.2] else []
  | _ => []

/-- Steps that go on with a name, and end there if it is the given one. -/
def StepsFit (name : String) (steps : List Step) : Prop :=
  ∃ first rest, steps = .name first :: rest ∧ (first = name → rest = [])

instance (name : String) (steps : List Step) : Decidable (StepsFit name steps) :=
  match steps with
  | .name first :: rest =>
    decidable_of_iff (first = name → rest = [])
      ⟨fun h => ⟨first, rest, rfl, h⟩, by rintro ⟨_, _, h, hend⟩; cases h; exact hend⟩
  | [] | .position _ :: _ => isFalse (by rintro ⟨_, _, h, -⟩; cases h)

/-- The assignment puts a section in the place of a section, and settings of the right kinds in the
    places of settings. -/
structure Assignment.Fits (a : Assignment) : Prop where
  isTable : ∀ k : Key, a.1.steps = [] → lowercase a.1.first = k.home.key → a.2.IsTable
  /-- A path into a section goes on with a name, and ends there if this is a setting. -/
  stepsFit : ∀ k : Key, a.1.first = k.home.key → a.1.steps ≠ [] → StepsFit k.name a.1.steps
  isSome_read? : ∀ k : Key, ∀ v ∈ k.valuesIn a, (k.kind.read? v).isSome

instance : DecidablePred Assignment.Fits := fun a =>
  decidable_of_iff
    ((∀ k : Key, a.1.steps = [] → lowercase a.1.first = k.home.key → a.2.IsTable) ∧
      (∀ k : Key, a.1.first = k.home.key → a.1.steps ≠ [] → StepsFit k.name a.1.steps) ∧
      ∀ k : Key, ∀ v ∈ k.valuesIn a, (k.kind.read? v).isSome)
    ⟨fun h => ⟨h.1, h.2.1, h.2.2⟩, fun h => ⟨h.isTable, h.stepsFit, h.isSome_read?⟩⟩

/-- The setting of a key in a tree. -/
def Key.in? (k : Key) (tree : Setting) : Option Setting :=
  (tree.entry? k.home.key).bind fun s => s.entry? k.name

/-- No value that a key can read is a table. -/
theorem not_isTable_of_read? {kind : Kind} {v : Setting} (h : (kind.read? v).isSome) :
    ¬v.IsTable := by
  rintro ⟨origin, entries, rfl⟩
  cases kind <;> exact Bool.false_ne_true h

/-- Merging a table into a section. -/
theorem in?_put_section {k : Key} {first : String} {origin : Option String}
    {entries : List (String × Setting)} (hfirst : lowercase first = k.home.key)
    (h : ∀ v ∈ Setting.valuesOf k.name entries, ¬v.IsTable) (tree : Setting) :
    k.in? (SettingPath.put ⟨first, []⟩ (.table origin entries) tree) =
      (Setting.valuesOf k.name entries).getLast?.or (k.in? tree) := by
  have hput : SettingPath.put ⟨first, []⟩ (.table origin entries) tree =
      tree.store first (.table origin entries) := rfl
  unfold Key.in?
  rw [hput, Setting.store_table, Setting.entry?_withEntries_putEntry, if_pos hfirst.symm,
    Option.bind_some, Setting.entry?_storeAll h, hfirst]
  cases tree.entry? k.home.key <;> rfl

/-- A longer path into a section changes what its next step leads to. -/
theorem in?_put_cons (k : Key) (step : Step) (rest : List Step) (v tree : Setting) :
    k.in? (SettingPath.put ⟨k.home.key, step :: rest⟩ v tree) =
      Setting.entry? (SettingPath.putAt v (step :: rest) ((tree.entry? k.home.key).getD .missing))
        k.name := by
  unfold Key.in?
  rw [SettingPath.put, SettingPath.putAt, Setting.entry?_withEntries_putEntry, if_pos rfl,
    Option.bind_some]
  simp

/-- A key is looked up in its section, if this is there. -/
theorem entry?_getD_missing (k : Key) (tree : Setting) :
    Setting.entry? ((tree.entry? k.home.key).getD .missing) k.name = k.in? tree := by
  unfold Key.in?
  cases tree.entry? k.home.key <;> rfl

/-- An assignment to another section gives a key no value. -/
theorem valuesIn_cons_of_ne {k : Key} {first : String} (h : first ≠ k.home.key) (step : Step)
    (rest : List Step) (v : Setting) : k.valuesIn (⟨first, step :: rest⟩, v) = [] := by
  unfold Key.valuesIn
  cases step <;> cases rest <;> simp [h]

/-- An assignment changes the settings that it names, and no others. -/
theorem in?_put {a : Assignment} (h : a.Fits) (tree : Setting) (k : Key) :
    k.in? (a.1.put a.2 tree) = (k.valuesIn a).getLast?.or (k.in? tree) := by
  obtain ⟨⟨first, steps⟩, v⟩ := a
  have hvalues : ∀ x ∈ k.valuesIn (⟨first, steps⟩, v), ¬x.IsTable := by
    intro x hx
    exact not_isTable_of_read? (h.isSome_read? k x hx)
  cases steps with
  | nil =>
    by_cases hfirst : lowercase first = k.home.key
    · obtain ⟨origin, entries, rfl⟩ := h.isTable k rfl hfirst
      simp only [Key.valuesIn, if_pos hfirst] at hvalues ⊢
      exact in?_put_section hfirst hvalues tree
    · -- the table of another section is put next to that of the key
      have hne : k.home.key ≠ if ([] : List Step) = [] then lowercase first else first := by
        simpa using Ne.symm hfirst
      have hother := Setting.entry?_putAt_of_ne hne v tree
      simp only [Key.valuesIn, if_neg hfirst]
      exact congrArg (Option.bind · _) hother
  | cons step rest =>
    by_cases hfirst : first = k.home.key
    · subst hfirst
      -- a path into the section starts with a name in it
      obtain ⟨name, rest', hsteps, hend⟩ := h.stepsFit k rfl (List.cons_ne_nil step rest)
      obtain ⟨rfl, rfl⟩ := List.cons.inj hsteps
      rw [in?_put_cons, ← entry?_getD_missing]
      cases rest with
      | nil =>
        by_cases hname : lowercase name = k.name
        · simp only [Key.valuesIn, hname, and_self, if_true] at hvalues ⊢
          rw [SettingPath.putAt, Setting.store_of_not_isTable (hvalues v List.mem_cons_self),
            Setting.entry?_withEntries_putEntry, if_pos hname.symm]
          rfl
        · rw [Setting.entry?_putAt_of_ne (by simpa using Ne.symm hname)]
          simp [Key.valuesIn, hname]
      | cons next rest =>
        -- a longer path goes through another entry
        have hname : k.name ≠ name := fun heq => List.cons_ne_nil next rest (hend heq.symm)
        rw [Setting.entry?_putAt_of_ne (by simpa using hname)]
        simp [Key.valuesIn]
    · have hne : k.home.key ≠ if step :: rest = [] then lowercase first else first := by
        simpa using Ne.symm hfirst
      have hother := Setting.entry?_putAt_of_ne hne v tree
      rw [valuesIn_cons_of_ne hfirst]
      exact congrArg (Option.bind · _) hother

/-- All sections of a tree are tables. -/
def HasSections (tree : Setting) : Prop :=
  ∀ k : Key, ∃ s, tree.entry? k.home.key = some s ∧ s.IsTable

/-- An assignment that fits leaves the sections in place. -/
theorem hasSections_put {a : Assignment} (h : a.Fits) {tree : Setting} (htree : HasSections tree) :
    HasSections (a.1.put a.2 tree) := by
  obtain ⟨⟨first, steps⟩, v⟩ := a
  intro k
  by_cases hhome : k.home.key = if steps = [] then lowercase first else first
  · cases steps with
    | nil =>
      rw [if_pos rfl] at hhome
      obtain ⟨origin, entries, rfl⟩ := h.isTable k rfl hhome.symm
      obtain ⟨s, hs, htable⟩ := htree k
      -- a whole table is stored in the section that is there
      refine ⟨Setting.storeAll s entries, ?_, Setting.isTable_storeAll htable entries⟩
      have hput : SettingPath.put ⟨first, []⟩ (.table origin entries) tree =
          tree.store first (.table origin entries) := rfl
      rw [hput, Setting.store_table, Setting.entry?_withEntries_putEntry, if_pos hhome, ← hhome, hs,
        Option.getD_some]
    | cons step rest =>
      rw [if_neg (List.cons_ne_nil step rest)] at hhome
      subst hhome
      obtain ⟨name, rest', hsteps, -⟩ := h.stepsFit k rfl (List.cons_ne_nil step rest)
      obtain ⟨rfl, rfl⟩ := List.cons.inj hsteps
      have htable := Setting.isTable_putAt_name v name rest ((tree.entry? k.home.key).getD .missing)
      refine ⟨_, ?_, htable⟩
      rw [SettingPath.put, SettingPath.putAt, Setting.entry?_withEntries_putEntry, if_pos rfl]
      simp
  · -- other sections stay
    obtain ⟨s, hs, htable⟩ := htree k
    refine ⟨s, ?_, htable⟩
    rw [SettingPath.put, Setting.entry?_putAt_of_ne hhome, hs]

/-! ## Runs of assignments -/

/-- The tree after a run of assignments. -/
def assign (assignments : List Assignment) (tree : Setting) : Setting :=
  assignments.foldl (fun tree a => a.1.put a.2 tree) tree

theorem assign_append (front back : List Assignment) (tree : Setting) :
    assign (front ++ back) tree = assign back (assign front tree) :=
  List.foldl_append

/-- Several assignments that fit leave the sections in place, too. -/
theorem hasSections_assign {assignments : List Assignment} (h : ∀ a ∈ assignments, a.Fits)
    {tree : Setting} (htree : HasSections tree) : HasSections (assign assignments tree) := by
  induction assignments generalizing tree with
  | nil => exact htree
  | cons a rest ih =>
    obtain ⟨ha, hrest⟩ := List.forall_mem_cons.mp h
    exact ih hrest (hasSections_put ha htree)

/-- The values that a run of assignments has for a key. -/
def Key.valuesInAll (k : Key) (assignments : List Assignment) : List Setting :=
  assignments.flatMap k.valuesIn

/-- The last value for a key comes from the later assignments, if they have one. -/
theorem getLast?_valuesInAll_append (k : Key) (front back : List Assignment) :
    (k.valuesInAll (front ++ back)).getLast? =
      (k.valuesInAll back).getLast?.or (k.valuesInAll front).getLast? := by
  unfold Key.valuesInAll
  rw [List.flatMap_append, List.getLast?_append]

/-- After a run of assignments a setting is the last value that was assigned to it. -/
theorem in?_assign {assignments : List Assignment} (h : ∀ a ∈ assignments, a.Fits)
    (tree : Setting) (k : Key) :
    k.in? (assign assignments tree) = (k.valuesInAll assignments).getLast?.or (k.in? tree) := by
  induction assignments generalizing tree with
  | nil => rfl
  | cons a rest ih =>
    obtain ⟨ha, hrest⟩ := List.forall_mem_cons.mp h
    have hrun : assign (a :: rest) tree = assign rest (a.1.put a.2 tree) := rfl
    have hvalues : k.valuesInAll [a] = k.valuesIn a := by simp [Key.valuesInAll]
    rw [hrun, ih hrest, in?_put ha, ← List.singleton_append, getLast?_valuesInAll_append, hvalues,
      Option.or_assoc]

/-! ## Reading settings from a tree -/

/-- A section that is there is found. -/
theorem sectionOf_eq_ok {k : Key} {tree s : Setting} (h : tree.entry? k.home.key = some s) :
    sectionOf tree k.home.key = .ok s := by
  rw [sectionOf, h]

/-- A field with a value is found under its full name. -/
theorem field?_eq {k : Key} {tree s v : Setting} (hsection : tree.entry? k.home.key = some s)
    (htable : s.IsTable) (hv : k.in? tree = some v) (i : Nat) :
    k.home.field? i k.name s = .ok (some (k.home.key ++ "." ++ k.name, v)) := by
  obtain ⟨origin, entries, rfl⟩ := htable
  have hentry : Setting.entry? (.table origin entries) k.name = some v := by
    rw [Key.in?, hsection] at hv
    exact hv
  rw [Section.field?, hentry]
  rfl

/-- A field of a section is the setting of its key. -/
theorem field_eq_ok {α : Type} {k : Key} {tree s v : Setting} {x : α}
    {read : String → Setting → Except SettingsError α}
    (hsection : tree.entry? k.home.key = some s) (htable : s.IsTable) (hv : k.in? tree = some v)
    (hread : ∀ key, read key v = .ok x) (i : Nat) : k.home.field s i k.name read = .ok x := by
  rw [Section.field, field?_eq hsection htable hv]
  exact hread _

/-- A field with a value is read, whatever its default is. -/
theorem fieldD_eq_ok {α : Type} {k : Key} {tree s v : Setting} {x : α}
    {read : String → Setting → Except SettingsError α}
    (hsection : tree.entry? k.home.key = some s) (htable : s.IsTable) (hv : k.in? tree = some v)
    (hread : ∀ key, read key v = .ok x) (i : Nat) (default : α) :
    k.home.fieldD s i k.name read default = .ok x := by
  rw [Section.fieldD, field?_eq hsection htable hv]
  exact hread _

/-- The section of lexing is read as the values of its keys. -/
theorem readLexing_eq_ok {tree s : Setting} (hsection : tree.entry? lexing.key = some s)
    (htable : s.IsTable) {x : (k : Key) → k.kind.Value}
    (h : ∀ k : Key, ∃ v, k.in? tree = some v ∧ k.kind.read? v = some (x k)) :
    readLexing s = .ok (ofValues x).preparation := by
  obtain ⟨v₁, hv₁, hx₁⟩ := h .normalizeLineEndings
  obtain ⟨v₂, hv₂, hx₂⟩ := h .stripNewlines
  obtain ⟨v₃, hv₃, hx₃⟩ := h .ensureTrailingNewline
  obtain ⟨v₄, hv₄, hx₄⟩ := h .tabSize
  have h₁ : lexing.field s 0 "normalize_line_endings" Setting.toBool = _ :=
    field_eq_ok (k := .normalizeLineEndings) hsection htable hv₁ (Setting.toBool_of_truth? hx₁) 0
  have h₂ : lexing.field s 1 "strip_newlines" Setting.toBool = _ :=
    field_eq_ok (k := .stripNewlines) hsection htable hv₂ (Setting.toBool_of_truth? hx₂) 1
  have h₃ : lexing.field s 2 "ensure_trailing_newline" Setting.toBool = _ :=
    field_eq_ok (k := .ensureTrailingNewline) hsection htable hv₃ (Setting.toBool_of_truth? hx₃) 2
  have h₄ : lexing.field s 3 "tab_size" Setting.toNat = _ :=
    field_eq_ok (k := .tabSize) hsection htable hv₄ (Setting.toNat_of_natural? hx₄) 3
  rw [readLexing, h₁, h₂, h₃, h₄]
  rfl

/-- Settings are read from a tree if each of them has its kind there. -/
theorem ofTree_eq_ok {tree : Setting} (htree : HasSections tree) {x : (k : Key) → k.kind.Value}
    (h : ∀ k : Key, ∃ v, k.in? tree = some v ∧ k.kind.read? v = some (x k)) :
    ofTree tree = .ok (ofValues x) := by
  -- the three sections are found
  obtain ⟨s₁, hs₁, hlexing_table⟩ := htree .tabSize
  obtain ⟨s₂, hs₂, houtput_table⟩ := htree .pretty
  obtain ⟨s₃, hs₃, hthemes_table⟩ := htree .themeDirs
  have hlexing : sectionOf tree lexing.key = .ok s₁ := sectionOf_eq_ok (k := .tabSize) hs₁
  have houtput : sectionOf tree output.key = .ok s₂ := sectionOf_eq_ok (k := .pretty) hs₂
  have hthemes : sectionOf tree themes.key = .ok s₃ := sectionOf_eq_ok (k := .themeDirs) hs₃
  obtain ⟨v₁, hv₁, hx₁⟩ := h .pretty
  obtain ⟨v₂, hv₂, hx₂⟩ := h .tokenFileSuffix
  obtain ⟨v₃, hv₃, hx₃⟩ := h .themeDirs
  -- and their fields are read
  have hpretty : output.field s₂ 0 "pretty" Setting.toBool = _ :=
    field_eq_ok (k := .pretty) hs₂ houtput_table hv₁ (Setting.toBool_of_truth? hx₁) 0
  have hsuffix : output.field s₂ 1 "token_file_suffix" Setting.toText = _ :=
    field_eq_ok (k := .tokenFileSuffix) hs₂ houtput_table hv₂ (Setting.toText_of_text? hx₂) 1
  have hdirs : themes.fieldD s₃ 0 "search_paths" Setting.toTexts [] = _ :=
    fieldD_eq_ok (k := .themeDirs) hs₃ hthemes_table hv₃ (Setting.toTexts_of_texts? hx₃) 0 []
  rw [ofTree, hlexing, houtput, hthemes]
  simp only [bind, Except.bind, readLexing_eq_ok hs₁ hlexing_table h, hpretty, hsuffix, hdirs]
  rfl

/-- The defaults have all sections. -/
theorem hasSections_defaultTree : HasSections defaultTree := by
  intro k
  cases k <;> exact ⟨_, rfl, _, _, rfl⟩

/-- In the tree of the defaults each setting is its default. -/
theorem in?_defaultTree (k : Key) :
    ∃ v, k.in? defaultTree = some v ∧ k.kind.read? v = some (({} : Settings).value k) := by
  cases k <;> exact ⟨_, rfl, rfl⟩

end Settings

end Tinct
