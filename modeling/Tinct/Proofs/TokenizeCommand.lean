import Tinct.CommandLine
import Tinct.Proofs.LayeredSettings
import Tinct.Proofs.ThemeLoading
import Tinct.Proofs.TokenFiles

/-!
# The two outputs of the tokens of a file

The tokens of a file are printed, or written beside the file.  Both ways give the same text, and
whatever can fail does so before anything is written: a command that fails prints nothing and leaves
all files as they were.

## Key results

- `Session.gives_load`: the listing of a file is that of its text
- `Session.gives_write`, `Session.gives_write_of_error`: what writing the tokens leaves behind
- `reads_execute`: no other command changes a file
- `execute_tokenize`: the outcomes of the command, printing or writing
-/

namespace Tinct

variable {δ : Type}

/-! ## Opening a session -/

section Opening

variable [Files δ] {m : Type → Type} [Monad m] [Workspace m] (I : Interpretation m δ)

/-- Loading a layer leaves all files alone. -/
theorem Layer.reads_load (l : Layer) : I.Reads l.load := by
  have htext : I.Reads (Layer.text l.path) := by
    have hfind : I.Reads (Layer.find? l.path) := fun d => ⟨_, Layer.gives_find? I d l.path⟩
    refine hfind.bind fun found => ?_
    cases found with
    | none => exact Execution.reads_pure _
    | some path =>
      refine (I.reads_readText path).bind fun text => ?_
      cases text <;> exact Execution.reads_pure _
  refine htext.bind fun text => ?_
  cases text <;> exact Execution.reads_pure _

/-- Loading several layers leaves all files alone. -/
theorem Layer.reads_loadAll (layers : List Layer) : I.Reads (Layer.loadAll layers) := by
  induction layers with
  | nil => exact Execution.reads_pure _
  | cons l rest ih =>
    refine (l.reads_load I).bind fun document => ?_
    cases document with
    | error e => exact Execution.reads_pure _
    | ok document => exact ih.bind fun documents => Execution.reads_pure _

/-- Loading the settings leaves all files alone. -/
theorem Sources.reads_load (s : Sources) : I.Reads s.load := by
  refine (Layer.reads_loadAll I s.layers).bind fun documents => ?_
  cases documents <;> exact Execution.reads_pure _

/-- Loading the themes of a directory leaves all files alone. -/
theorem ThemeLibrary.reads_load (read : ThemeReader) (l : ThemeLibrary) (dir : String) :
    I.Reads (l.load read dir) := by
  intro d
  obtain ⟨themes, result, h⟩ := exists_loading read d dir
  exact ⟨_, gives_load I h l⟩

/-- So does loading those of several directories. -/
theorem Session.reads_loadThemes (l : ThemeLibrary) (dirs : List String) :
    I.Reads (Session.loadThemes l dirs) := by
  induction dirs generalizing l with
  | nil => exact Execution.reads_pure _
  | cons dir rest ih =>
    refine (ThemeLibrary.reads_load I Theme.parse? l dir).bind fun answer => ?_
    obtain ⟨loaded, result⟩ := answer
    cases result with
    | error e => exact Execution.reads_pure _
    | ok n => exact (I.reads_report _).bind fun _ => ih loaded

/-- Opening a session changes no files. -/
theorem Session.reads_open? (settings : Settings) : I.Reads (Session.open? settings) :=
  (Session.reads_loadThemes I .builtin settings.themeDirs).bind fun _ => Execution.reads_pure _

/-- A session that was opened has the settings that it was opened with, and the built-in lexers. -/
theorem Session.settings_lexers_of_gives {d d' : δ} {settings : Settings} {s : Session}
    (h : I.Gives (Session.open? settings) d (.ok s) d') :
    s.settings = settings ∧ s.lexers = .builtin := by
  obtain ⟨themes, hthemes⟩ := Session.reads_loadThemes I .builtin settings.themeDirs d
  have hopen : I.Gives (Session.open? settings) d
      (themes.map fun themes => { settings, themes }) d := hthemes.bind (Execution.gives_pure _ d)
  -- there is one answer, so the themes could be loaded
  have hsame := (h.unique hopen).1
  cases themes with
  | error e => cases hsame
  | ok themes =>
    obtain rfl := Except.ok.inj hsame
    exact ⟨rfl, rfl⟩

end Opening

/-! ## Tokens of a file -/

namespace Session

section Files

variable [Files δ]

/-- The listing of the text of a file, with the lexer that is named, or else one that is found by
the path. -/
def listingOf (s : Session) (d : δ) (path : String) (lexer : Option String) :
    Except Failure Listing :=
  match Files.readText d path with
  | .error e => .error (.file path e)
  | .ok source => s.tokenize source (lexer.elim (.forFile path) .named)

variable {m : Type → Type} [Monad m] [Workspace m] (I : Interpretation m δ) (s : Session) {d d' : δ}
  {path : String} {lexer : Option String} {listing : Listing}

/-- Tokenizing a file answers its listing, or why there is none. -/
theorem gives_load (d : δ) (path : String) (lexer : Option String) :
    I.Gives (s.load path lexer) d (s.listingOf d path lexer) d := by
  have hchoice : LexerChoice.ofName? path lexer = lexer.elim (.forFile path) .named := by
    cases lexer <;> rfl
  refine (I.gives_readText d path).bind ?_
  unfold listingOf
  rw [← hchoice]
  cases Files.readText d path with
  | error e => exact Execution.gives_pure _ d
  | ok source => exact (I.gives_reports d _).bind (Execution.gives_pure _ d)

/-- The listing of a file is read back from what is printed of it. -/
theorem isReadable_of_listingOf (hs : s.lexers = .builtin)
    (h : s.listingOf d path lexer = .ok listing) : listing.IsReadable := by
  unfold listingOf at h
  split at h
  · cases h
  · exact Listing.isReadable_of_tokenize hs h

/-- Tokenizing a file leaves all files alone. -/
theorem reads_load (path : String) (lexer : Option String) : I.Reads (s.load path lexer) :=
  fun d => ⟨_, s.gives_load I d path lexer⟩

/-- A listing is written to the token file. -/
theorem gives_write (h : s.listingOf d path lexer = .ok listing)
    (hwrite : Files.writeText d (s.tokenFilePath path) (s.print listing.toJson) = .ok d') :
    I.Gives (s.write path lexer) d (.ok (s.tokenFilePath path)) d' := by
  refine (s.gives_load I d path lexer).bind ?_
  rw [h]
  exact (I.gives_writeText hwrite).bind ((I.gives_report d' _).bind (Execution.gives_pure _ d'))

/-- A write that fails is the last thing that is tried. -/
theorem gives_write_of_error {e : FileError} (h : s.listingOf d path lexer = .ok listing)
    (hwrite : Files.writeText d (s.tokenFilePath path) (s.print listing.toJson) = .error e) :
    I.Gives (s.write path lexer) d (.error (.file (s.tokenFilePath path) e)) d := by
  refine (s.gives_load I d path lexer).bind ?_
  rw [h]
  exact (I.gives_writeText_error hwrite).bind (Execution.gives_pure _ d)

/-- Without a listing nothing is written. -/
theorem gives_write_of_failure {e : Failure} (h : s.listingOf d path lexer = .error e) :
    I.Gives (s.write path lexer) d (.error e) d := by
  refine (s.gives_load I d path lexer).bind ?_
  rw [h]
  exact Execution.gives_pure _ d

end Files

end Session

namespace CommandLine

/-- A command that fails ends with the exit code one, and without output. -/
theorem failureIn_exit_stdout (s : Session) (e : Failure) :
    (Outcome.failureIn s e).exit = 1 ∧ (Outcome.failureIn s e).stdout = "" := by
  unfold Outcome.failureIn
  split <;> exact ⟨rfl, rfl⟩

variable {m : Type → Type} [Monad m] [Workspace m]

/-- The program with arguments does what they ask for, with the reports of their level. -/
theorem gives_run [Files δ] (I : Interpretation m δ) {args : List String} {i : Invocation}
    (h : parse args = .ok i) {d d' : δ} {o : Outcome} :
    I.Gives (run args) d o d' ↔ (I.filtered (level i.verbosity)).Gives (execute i) d o d' := by
  unfold run
  rw [h]
  exact Iff.rfl

/-- A command is carried out in the session of the settings. -/
theorem gives_execute [Files δ] (I : Interpretation m δ) {d d' : δ} {i : Invocation}
    {settings : Settings} {s : Session} {o : Outcome}
    {d₁ d₂ : δ} (hsettings : I.Gives (sources i.config).load d (.ok settings) d₁)
    (hsession : I.Gives (Session.open? settings) d₁ (.ok s) d₂)
    (hperform : I.Gives (perform s i.command) d o d') : I.Gives (execute i) d o d' := by
  -- nothing has been written before the command
  obtain rfl := (Sources.reads_load I _).eq_of_gives hsettings
  obtain rfl := (Session.reads_open? I _).eq_of_gives hsession
  exact hsettings.bind (hsession.bind hperform)

/-- No command but the one that writes tokens changes a file. -/
theorem reads_execute [Files δ] (I : Interpretation m δ) {i : Invocation}
    (h : ∀ path lexer, i.command ≠ .tokenize path lexer false) : I.Reads (execute i) := by
  -- of the commands only the one that is left out writes a file
  have hperform : ∀ s, I.Reads (perform s i.command) := by
    intro s
    cases hcommand : i.command with
    | tokenize path lexer toStdout =>
      cases toStdout with
      | true => exact (s.reads_load I path lexer).bind fun _ => Execution.reads_pure _
      | false => exact absurd hcommand (h path lexer)
    | _ => exact Execution.reads_pure _
  -- a run loads settings, opens a session with them and performs its command
  refine (Sources.reads_load I _).bind fun settings => ?_
  cases settings with
  | error e => exact Execution.reads_pure _
  | ok settings =>
    refine (Session.reads_open? I settings).bind fun session => ?_
    cases session with
    | error e => exact Execution.reads_pure _
    | ok s => exact hperform s

/-- Where a session can be opened, the command gives the listing of the file.  If there is one, its
    text is a JSON document in the layout of the settings, an array of the lines with an object for
    each token, from which the listing is read back.  The text is printed, and no file changes; or
    the same text is written to the path with the suffix of the settings, and changes what lies at
    one place, unless the write fails.  If there is no listing, both ways fail alike, and as with a
    write that fails, nothing is printed and no file changes. -/
theorem execute_tokenize [PlacedFiles δ] (I : Interpretation m δ) {d d₁ d₂ : δ}
    {config : Option String} {settings : Settings} {s : Session}
    (hsettings : I.Gives (sources config).load d (.ok settings) d₁)
    (hsession : I.Gives (Session.open? settings) d₁ (.ok s) d₂)
    (verbosity : Nat) (path : String) (lexer : Option String) :
    I.Gives (s.load path lexer) d (s.listingOf d path lexer) d ∧
    (∀ listing, s.listingOf d path lexer = .ok listing →
      let text := listing.toJson.print (if settings.pretty then .pretty else .compact)
      let target := path ++ settings.tokenFileSuffix
      Json.parse? text = some (.array (listing.lines.map fun line => .array (line.map fun t =>
        .ofMembers [("content", .ofString t.content), ("type", .ofString t.category.key)]))) ∧
      Listing.read? text = some listing ∧
      I.Gives (execute ⟨config, verbosity, .tokenize path lexer true⟩) d ⟨0, text ++ "\n", ""⟩ d ∧
      (∀ d', Files.writeText d target text = .ok d' →
        I.Gives (execute ⟨config, verbosity, .tokenize path lexer false⟩) d
          ⟨0, target ++ "\n", ""⟩ d' ∧
        Replaces d d' target text ∧ Files.readText d' target = .ok text) ∧
      ∀ e, Files.writeText d target text = .error e →
        I.Gives (execute ⟨config, verbosity, .tokenize path lexer false⟩) d
          (.failureIn s (.file target e)) d) ∧
    (∀ e, s.listingOf d path lexer = .error e → ∀ toStdout,
      I.Gives (execute ⟨config, verbosity, .tokenize path lexer toStdout⟩) d (.failureIn s e) d) ∧
    ∀ e, (Outcome.failureIn s e).exit = 1 ∧ (Outcome.failureIn s e).stdout = "" := by
  have hperform : ∀ {toStdout o d'}, I.Gives (perform s (.tokenize path lexer toStdout)) d o d' →
      I.Gives (execute ⟨config, verbosity, .tokenize path lexer toStdout⟩) d o d' :=
    fun h => gives_execute I hsettings hsession h
  have hload := s.gives_load I d path lexer
  obtain ⟨rfl, hlexers⟩ := Session.settings_lexers_of_gives I hsession
  refine ⟨hload, fun listing hlisting => ⟨?_, ?_, ?_, fun d' hwrite => ⟨?_, ?_, ?_⟩,
    fun e hwrite => ?_⟩, ?_, failureIn_exit_stdout s⟩
  -- the text of the listing
  · exact Json.parse?_print listing.isPlain_toJson _
  · exact (Listing.read?_print_eq_iff s listing).mpr (s.isReadable_of_listingOf hlexers hlisting)
  -- the text is printed
  · rw [hlisting] at hload
    exact hperform (hload.bind (Execution.gives_pure _ d))
  -- the text is written, or the write fails
  · exact hperform ((s.gives_write I hlisting hwrite).bind (Execution.gives_pure _ d'))
  · exact replaces_of_writeText hwrite
  · exact (replaces_of_writeText hwrite).readText
  · exact hperform ((s.gives_write_of_error I hlisting hwrite).bind (Execution.gives_pure _ d))
  -- there is no listing
  · intro e hfailure toStdout
    cases toStdout with
    | true =>
      rw [hfailure] at hload
      exact hperform (hload.bind (Execution.gives_pure _ d))
    | false =>
      exact hperform ((s.gives_write_of_failure I hfailure).bind (Execution.gives_pure _ d))

/-- The program with default settings, for a file that is there and for one that is not. -/
theorem run_tokenize_of_text :
    let d : Memory.Places := .ofList [(["a.txt"], .text "ab\n\nc")]
    let text := "[\n" ++
      "  [\n    \x7b\n      \"content\": \"ab\",\n      \"type\": \"Text\"\n    \x7d\n  ],\n" ++
      "  [],\n" ++
      "  [\n    \x7b\n      \"content\": \"c\",\n      \"type\": \"Text\"\n    \x7d\n  ]\n]"
    Memory.interpretation.Gives (run ["tokenize", "a.txt", "--stdout"]) d ⟨0, text ++ "\n", ""⟩ d ∧
    (∃ d', Memory.interpretation.Gives (run ["tokenize", "a.txt"]) d
        ⟨0, "a.txt.tokens.json\n", ""⟩ d' ∧ Replaces d d' "a.txt.tokens.json" text) ∧
    ∃ message, Memory.interpretation.Gives (run ["tokenize", "b.txt"]) d ⟨1, "", message⟩ d := by
  intro d text
  let I := Memory.interpretation.filtered (level 0)
  -- no settings file is there, so the defaults are loaded
  have hsettings : I.Gives (sources none).load d (.ok {}) d := by
    have hfile : Layer.file? d "hilite.toml" = none := by decide +kernel
    have hdocument : Layer.document? d ⟨"hilite.toml", false⟩ = some [] := by
      rw [Layer.document?, hfile]
      rfl
    have hall : I.Gives (Layer.loadAll [⟨"hilite.toml", false⟩]) d (.ok [[]]) d :=
      Layer.gives_loadAll I (congrArg (· :: []) hdocument)
    exact hall.bind (Execution.gives_pure _ d)
  have hsession : I.Gives (Session.open? {}) d (.ok {}) d :=
    (Execution.gives_pure _ d).bind (Execution.gives_pure _ d)
  obtain ⟨-, hthere, -, -⟩ := execute_tokenize I hsettings hsession 0 "a.txt" none
  obtain ⟨-, -, hmissing, -⟩ := execute_tokenize I hsettings hsession 0 "b.txt" none
  let plain : Category := .ofKey "Text"
  let listing : Listing := ⟨[[⟨"ab", plain⟩], [], [⟨"c", plain⟩]]⟩
  -- the listing is computed, and so is what is printed of it
  have hlisting : ({} : Session).listingOf d "a.txt" none = .ok listing := by decide +kernel
  have hprint : listing.toJson.print .pretty = text := by decide +kernel
  have hfailure : ({} : Session).listingOf d "b.txt" none = .error (.file "b.txt" .notFound) := by
    decide +kernel
  have hwrite : Files.writeText d "a.txt.tokens.json" text =
      .ok (d.insert ["a.txt.tokens.json"] (.text text)) := by decide +kernel
  obtain ⟨-, -, hprinted, hwritten, -⟩ := hthere listing hlisting
  rw [← hprint] at hwrite ⊢
  obtain ⟨hgives, hreplaces, -⟩ := hwritten _ hwrite
  refine ⟨(gives_run Memory.interpretation ?_).mpr hprinted,
    ⟨_, (gives_run Memory.interpretation ?_).mpr hgives, hreplaces⟩,
    _, (gives_run Memory.interpretation ?_).mpr (hmissing _ hfailure false)⟩
  · decide +kernel
  · decide +kernel
  · decide +kernel

end CommandLine

end Tinct
