import FlowText.Command.Run
import FlowText.Proofs.Printable
import FlowText.Proofs.Replacing
import FlowText.Proofs.Scripts

/-!
# The dump command

The command first reads its files and works out all that it shows, and this leaves every file as it
is (`looks_prepare`). It succeeds exactly for what is accepted: a dump that is read, with a script
that is read and asks for stock passes only (`exists_of_accepted`, `exists_accepted`). Such passes
do not fail, and what they make of a graph that was read can be shown.

Then files are replaced, which does not fail either (`exists_runDump`). So the command does all that
it is asked for, or nothing (`dump_command_all_or_nothing`).
-/

namespace FlowText.Command

/-! ### Actions that may fail -/

section

variable {ε σ α β : Type} {act : ExceptT ε (StateM σ) α} {s s' : σ}

/-- What comes next goes on from a result. -/
theorem run_bind_ok {a : α} (h : act.run.run s = (.ok a, s')) (next : α → ExceptT ε (StateM σ) β) :
    (act >>= next).run.run s = (next a).run.run s' := by
  rw [ExceptT.run_bind]
  exact run_bind h

/-- A failure ends it all. -/
theorem run_bind_error {e : ε} (h : act.run.run s = (.error e, s'))
    (next : α → ExceptT ε (StateM σ) β) : (act >>= next).run.run s = (.error e, s') := by
  rw [ExceptT.run_bind]
  exact run_bind h

/-- **Looks.** The action ends with a result and leaves everything as it is. -/
def Looks (act : ExceptT ε (StateM σ) α) (s : σ) (result : Except ε α) : Prop :=
  act.run.run s = (result, s)

/-- Two looks are one. -/
theorem Looks.bind {result : Except ε α} (h : Looks act s result)
    {next : α → ExceptT ε (StateM σ) β}
    {results : α → Except ε β} (hnext : ∀ a, Looks (next a) s (results a)) :
    Looks (act >>= next) s (result >>= results) := by
  cases result with
  | error e => exact run_bind_error h next
  | ok a => exact (run_bind_ok h next).trans (hnext a)

end

variable {d : Directory} {r : DumpRequest}

/-! ### Preparing -/

/-- The text of a file, or why there is none. -/
def fileText (d : Directory) (input : Input) (path : String) : Except Failure String :=
  ((d.bytes path).bind decode).mapError (.unreadable input path)

/-- A file holds a text if its bytes encode it. -/
theorem decode_eq_ok_iff {bytes : ByteArray} {text : String} :
    decode bytes = .ok text ↔ bytes = text.toUTF8 := by
  rw [decode, String.fromUTF8?]
  constructor
  · intro h
    split at h
    · cases h
      rfl
    · cases h
  · rintro rfl
    have hvalid : text.toUTF8.IsValidUTF8 := text.isValidUTF8
    rw [dif_pos hvalid]
    rfl

/-- A text is found in the file that holds its bytes. -/
theorem fileText_eq_ok_iff {input : Input} {path text : String} :
    fileText d input path = .ok text ↔ d.bytes path = .ok text.toUTF8 := by
  rw [fileText, mapError_eq_ok_iff]
  cases d.bytes path with
  | error reason => exact ⟨nofun, nofun⟩
  | ok bytes => exact decode_eq_ok_iff.trans ⟨congrArg _, Except.ok.inj⟩

/-- What the text of a file says, or why nothing is read. -/
def loaded {α : Type} (d : Directory) (input : Input)
    (parse : (path text : String) → Except Failure α) (path : String) : Except Failure α := do
  parse path (← fileText d input path)

/-- What a request asks for, worked out from the files of a directory. -/
def prepared (d : Directory) (r : DumpRequest) : Except Failure Product := do
  let (graph, log) ← loaded d .dump parseDump r.file
  let steps ← r.script.mapM (loaded d .script parseScript)
  Product.make r graph log (steps.getD [])

/-- Reads the files of a request and works out what it asks for. -/
def prepare {m : Type → Type} [Monad m] (files : Files m) (r : DumpRequest) :
    ExceptT Failure m Product := do
  let (graph, log) ← load files .dump parseDump r.file
  let steps ← r.script.mapM (load files .script parseScript)
  ExceptT.mk (pure (Product.make r graph log (steps.getD [])))

/-- **Reading** changes no file. -/
theorem looks_readFile (d : Directory) (input : Input) (path : String) :
    Looks (readFile Directory.files input path) d (fileText d input path) := by
  have hread : (Directory.files.readText path).run d = ((d.bytes path).bind decode, d) := by
    have hbytes : (Directory.files.read path).run d = (d.bytes path, d) := rfl
    refine (run_bind hbytes).trans ?_
    cases d.bytes path <;> rfl
  exact run_bind hread

/-- Neither does making sense of what was read. -/
theorem looks_load {α : Type} (d : Directory) (input : Input)
    (parse : (path text : String) → Except Failure α) (path : String) :
    Looks (load Directory.files input parse path) d (loaded d input parse path) :=
  (looks_readFile d input path).bind fun _ => rfl

/-- A script is looked at if there is one. -/
theorem looks_loadScript (d : Directory) (path? : Option String) :
    Looks (path?.mapM (load Directory.files .script parseScript)) d
      (path?.mapM (loaded d .script parseScript)) := by
  cases path? with
  | none => rfl
  | some path =>
    rw [Option.mapM_some, Option.mapM_some]
    exact (looks_load d .script parseScript path).bind fun _ => rfl

/-- **Preparing** changes no file. -/
theorem looks_prepare (d : Directory) (r : DumpRequest) :
    Looks (prepare Directory.files r) d (prepared d r) :=
  (looks_load d .dump parseDump r.file).bind fun _ =>
    (looks_loadScript d r.script).bind fun _ => rfl

/-- **Accepted.** The file of a request holds the dump of a graph, and its script has these steps,
which all ask for stock passes. Without a script there are no steps. -/
structure Accepted (d : Directory) (r : DumpRequest) (g : Cfg) (steps : Script) : Prop where
  graph : ∃ text, d.bytes r.file = .ok text.toUTF8 ∧ (readDump text).result.1 = .ok g
  noScript : r.script = none → steps = []
  script : ∀ path ∈ r.script, ∃ text, d.bytes path = .ok text.toUTF8 ∧ Script.read text = .ok steps
  stock : ∀ s ∈ steps, (Catalog.stock (σ := Unit)).contains s.kind s.name = true

/-- **Made.** What a script makes of a graph, with the dump and the drawing of it that a request
asks for. -/
structure Made (r : DumpRequest) (g : Cfg) (steps : Script) (h : Cfg)
    (dump drawing : String) : Prop where
  runs : ∃ changed, steps.Runs Unit { maxRounds := r.rounds } g changed h
  dumped : h.view.dump r.layout.render = .ok dump
  drawn : h.draw (Path.stem? r.file) r.layout.render = .ok drawing

variable {g : Cfg} {steps : Script}

/-- The graph that is read. -/
theorem Accepted.exists_loaded (h : Accepted d r g steps) :
    ∃ log, loaded d .dump parseDump r.file = .ok (g, log) := by
  obtain ⟨text, htext, hg⟩ := h.graph
  obtain ⟨log, hlog⟩ : ∃ log, (readDump text).result = (.ok g, log) := ⟨_, Prod.ext hg rfl⟩
  refine ⟨log, ?_⟩
  rw [loaded, fileText_eq_ok_iff.2 htext]
  change parseDump r.file text = _
  rw [parseDump, hlog]
  rfl

/-- The steps that are read, of which there are none without a script. -/
theorem Accepted.exists_steps (h : Accepted d r g steps) :
    ∃ steps?, r.script.mapM (loaded d .script parseScript) = .ok steps? ∧
      steps?.getD [] = steps := by
  cases hs : r.script with
  | none => exact ⟨none, rfl, (h.noScript hs).symm⟩
  | some path =>
    obtain ⟨text, htext, hread⟩ := h.script path hs
    refine ⟨some steps, ?_, rfl⟩
    rw [Option.mapM_some, loaded, fileText_eq_ok_iff.2 htext]
    change (parseScript path text >>= fun steps => pure (some steps)) = _
    rw [parseScript, hread]
    rfl

/-- **What is accepted is shown.** No step is missing, no pass fails, and nothing is refused by a
renderer. -/
theorem exists_of_accepted (h : Accepted d r g steps) :
    ∃ p k drawing, prepared d r = .ok p ∧ Made r g steps k p.dump drawing ∧
      p.drawing = r.drawing.map fun _ => drawing := by
  obtain ⟨log, hloaded⟩ := h.exists_loaded
  obtain ⟨steps?, hscript, hsteps⟩ := h.exists_steps
  obtain ⟨text, -, hg⟩ := h.graph
  have hvalid : g.Valid := (isRead_of_ok hg).valid
  obtain ⟨changed, k, hruns, hk⟩ := hvalid.exists_runs h.stock { maxRounds := r.rounds }
  obtain ⟨dump, hdump⟩ := hk.printable.dump r.layout
  obtain ⟨drawing, hdrawing⟩ := hk.printable.draw (Path.stem? r.file) r.layout
  obtain ⟨pipeline, hpipeline, hrun⟩ := hruns
  obtain ⟨bench, hbench, rfl⟩ := hrun { subject := g, memory := () } rfl
  have hdrawn : r.drawing.mapM (fun _ => (.ok drawing : Except Failure String)) =
      .ok (r.drawing.map fun _ => drawing) := by
    cases r.drawing <;> rfl
  have hprepared : prepared d r = Product.make r g log steps := by
    rw [prepared, hloaded, hscript, ← hsteps]
    rfl
  have hmake : ∃ p, Product.make r g log steps = .ok p ∧ p.dump = dump ∧
      p.drawing = r.drawing.map fun _ => drawing := by
    rw [Product.make]
    simp only [Except.mapError, bind, Except.bind, hpipeline, hbench, hdump, hdrawing, hdrawn]
    exact ⟨_, rfl, rfl, rfl⟩
  obtain ⟨p, hp, rfl, hpd⟩ := hmake
  exact ⟨p, _, drawing, hprepared.trans hp,
    ⟨⟨changed, pipeline, hpipeline, hrun⟩, hdump, hdrawing⟩, hpd⟩

/-- Of what is made, all steps were found. -/
theorem stock_of_make {log : Log} {p : Product} (h : Product.make r g log steps = .ok p) :
    ∀ s ∈ steps, (Catalog.stock (σ := Unit)).contains s.kind s.name = true := by
  obtain ⟨pipeline, hpipeline, -⟩ := ok_of_bind h
  exact Pipeline.contains_of_ofScript (mapError_eq_ok_iff.1 hpipeline)

/-- A dump that was loaded is one that is read. -/
theorem exists_of_loadedDump {log : Log} {path : String}
    (h : loaded d .dump parseDump path = .ok (g, log)) :
    ∃ text, d.bytes path = .ok text.toUTF8 ∧ (readDump text).result.1 = .ok g := by
  obtain ⟨text, htext, h⟩ := ok_of_bind h
  obtain ⟨g', hg, he⟩ := ok_of_map h
  cases he
  exact ⟨text, fileText_eq_ok_iff.1 htext, mapError_eq_ok_iff.1 hg⟩

/-- A script that was loaded is one that is read. -/
theorem exists_of_loadedScript {path : String}
    (h : loaded d .script parseScript path = .ok steps) :
    ∃ text, d.bytes path = .ok text.toUTF8 ∧ Script.read text = .ok steps := by
  obtain ⟨text, htext, h⟩ := ok_of_bind h
  exact ⟨text, fileText_eq_ok_iff.1 htext, mapError_eq_ok_iff.1 h⟩

/-- **What is prepared was accepted.** -/
theorem exists_accepted {p : Product} (h : prepared d r = .ok p) :
    ∃ g steps, Accepted d r g steps := by
  obtain ⟨⟨g, log⟩, hgraph, h⟩ := ok_of_bind h
  obtain ⟨steps?, hscript, h⟩ := ok_of_bind h
  refine ⟨g, steps?.getD [], exists_of_loadedDump hgraph, ?_, ?_, stock_of_make h⟩
  · intro hnone
    rw [hnone] at hscript
    cases hscript
    rfl
  · intro path hpath
    rw [Option.mem_def.1 hpath, Option.mapM_some] at hscript
    obtain ⟨steps, hsteps, hscript⟩ := ok_of_map hscript
    cases hscript
    exact exists_of_loadedScript hsteps

/-! ### Writing -/

/-- Writes a text to a file, if there are a path and a text. -/
def writeAt {m : Type → Type} [Monad m] (files : Files m) (path? text? : Option String) :
    ExceptT Failure m Unit :=
  match path?, text? with
  | some path, some text => writeFile files path text
  | _, _ => pure ()

/-- First everything is prepared, and then it is written. -/
theorem runDump_eq (r : DumpRequest) :
    runDump Directory.files r = (do
      let p ← prepare Directory.files r
      writeAt Directory.files r.output (some p.dump)
      writeAt Directory.files r.drawing p.drawing
      return p) := by
  rw [runDump, prepare]
  simp only [bind_assoc]
  refine bind_congr fun text => bind_congr fun script => bind_congr fun p => ?_
  cases r.output <;> cases r.drawing <;> cases p.drawing <;> simp [writeAt]

/-- **Suitable.** The dump and the drawing can be written where they go, which are different files,
and neither is the scratch file of the other. -/
structure Suitable (d : Directory) (r : DumpRequest) : Prop where
  output : ∀ path ∈ r.output, d.Writable path
  drawing : ∀ path ∈ r.drawing, d.Writable path
  apart : ∀ path ∈ r.output, ∀ path' ∈ r.drawing, Path.Apart path path' ∧ Path.Apart path' path

/-- **Written.** The files that a request names hold the dump and the drawing, their scratch files
are gone, and at all other places stands what stood there. -/
structure Written (r : DumpRequest) (dump drawing : String) (d d' : Directory) : Prop where
  output : ∀ path ∈ r.output, d'.bytes path = .ok dump.toUTF8
  drawing : ∀ path ∈ r.drawing, d'.bytes path = .ok drawing.toUTF8
  scratch : ∀ path, path ∈ r.output ∨ path ∈ r.drawing →
    d'.bytes (Path.scratch path) = .error Directory.missing
  home : d'.home = d.home
  others : ∀ place, (∀ path, path ∈ r.output ∨ path ∈ r.drawing →
    d.place path ≠ .ok place ∧ d.place (Path.scratch path) ≠ .ok place) →
    d'.at? place = d.at? place

/-- A text is written if there is a path for it. -/
theorem exists_writeAt (text : String) {path? text? : Option String}
    (hw : ∀ path ∈ path?, d.Writable path) (htext : ∀ path ∈ path?, text? = some text) :
    ∃ d', (writeAt Directory.files path? text?).run.run d = (.ok (), d') ∧
      d.Replaced path? text d' := by
  cases path? with
  | none => exact ⟨d, rfl, d.replaced_none text⟩
  | some path =>
    obtain rfl := htext path rfl
    obtain ⟨d', hrun, hreplaced⟩ := Directory.exists_replaced (hw path rfl) text
    exact ⟨d', run_bind hrun, hreplaced⟩

/-- A file that no replaced one is in the way of is read as before. -/
theorem Directory.Replaced.bytes_of_apart {d' : Directory} {path? : Option String}
    {text other p : String} (h : d.Replaced path? text d') (hp : d.place other = .ok p)
    (hother : (Path.plain? other).isSome) (hplain : ∀ path ∈ path?, (Path.plain? path).isSome)
    (hapart : ∀ path ∈ path?, Path.Apart other path) : d'.bytes other = d.bytes other := by
  refine h.folders.bytes hp (h.others p fun path hpath => ?_)
  obtain ⟨hscratch, -⟩ := Directory.plain_scratch (hplain path hpath)
  exact ⟨Directory.place_ne hother (hplain path hpath) (hapart path hpath).file.symm hp,
    Directory.place_ne hother hscratch (hapart path hpath).scratch.symm hp⟩

/-- Two files that are replaced one after the other are both written. -/
theorem Written.of_replaced {dump drawing : String} {d₁ d₂ : Directory} (hr : Suitable d r)
    (ho : d.Replaced r.output dump d₁) (hd : d₁.Replaced r.drawing drawing d₂) :
    Written r dump drawing d d₂ where
  output path hp := by
    obtain ⟨p, hplace⟩ := (hr.output path hp).exists_place
    rw [hd.bytes_of_apart (ho.folders.place hplace) (hr.output path hp).plain
      (fun path' hp' => (hr.drawing path' hp').plain) fun path' hp' =>
        (hr.apart path hp path' hp').1]
    exact ho.file path hp
  drawing := hd.file
  scratch := by
    rintro path (hp | hp)
    · obtain ⟨q, hplace⟩ := (hr.output path hp).exists_scratch
      have hplain := (hr.output path hp).plain
      rw [hd.bytes_of_apart (ho.folders.place hplace) (Directory.plain_scratch hplain).1
        (fun path' hp' => (hr.drawing path' hp').plain) fun path' hp' => ?_]
      · exact ho.scratch path hp
      · obtain ⟨hfile, hscratch⟩ := hr.apart path hp path' hp'
        exact ⟨hscratch.scratch.symm,
          Directory.scratch_ne (hr.drawing path' hp').plain hplain hfile.file⟩
    · exact hd.scratch path hp
  home := (ho.folders.trans hd.folders).home
  others place h := by
    rw [hd.others, ho.others]
    · exact fun path hp => h path (.inl hp)
    · intro path hp
      obtain ⟨hplace, hscratch⟩ := h path (.inr hp)
      exact ⟨fun he => hplace (ho.folders.symm.place he),
        fun he => hscratch (ho.folders.symm.place he)⟩

/-- **A request that was prepared is carried out.** -/
theorem exists_runDump (hr : Suitable d r) {p : Product} {drawing : String}
    (hp : prepared d r = .ok p) (hdrawing : p.drawing = r.drawing.map fun _ => drawing) :
    ∃ d', (runDump Directory.files r).run.run d = (.ok p, d') ∧ Written r p.dump drawing d d' := by
  have hprepare := looks_prepare d r
  rw [hp] at hprepare
  obtain ⟨d₁, hrun₁, ho⟩ := exists_writeAt p.dump hr.output fun _ _ => rfl
  have htext : ∀ path ∈ r.drawing, p.drawing = some drawing := by
    intro path hpath
    rw [hdrawing, Option.mem_def.1 hpath]
    rfl
  have hdraw : ∀ path ∈ r.drawing, d₁.Writable path := fun path hpath =>
    (hr.drawing path hpath).sameFolders ho.folders
  obtain ⟨d₂, hrun₂, hd⟩ := exists_writeAt drawing hdraw htext
  refine ⟨d₂, ?_, .of_replaced hr ho hd⟩
  rw [runDump_eq]
  exact (run_bind_ok hprepare _).trans ((run_bind_ok hrun₁ _).trans (run_bind_ok hrun₂ _))

/-- **A request that is refused** leaves every file as it is. -/
theorem run_runDump_of_error {e : Failure} (he : prepared d r = .error e) :
    (runDump Directory.files r).run.run d = (.error e, d) := by
  have hprepare := looks_prepare d r
  rw [he] at hprepare
  rw [runDump_eq]
  exact run_bind_error hprepare _

/-! ### The command -/

/-- **All or nothing.** If the dump and the script of a request are accepted the command succeeds.
Then the dump of what the script makes of the graph is in the file that is named for it, or else it
is all that is shown; the drawing is in its file, too; and nothing else has changed. Otherwise, be
it that a file is missing or holds no text, or that a text is refused, the command ends with code 1,
shows nothing and leaves all files as they are. -/
theorem dump_command_all_or_nothing (verbose : Bool) {r : DumpRequest} {d : Directory}
    (hr : Suitable d r) :
    (∀ g steps, Accepted d r g steps → ∃ h dump drawing outcome d',
      Made r g steps h dump drawing ∧
      (runRequest Directory.files { json := false, verbose, task := .dump r }).run d =
        (outcome, d') ∧
      outcome.code = 0 ∧ outcome.shown = (if r.output.isNone then dump else "") ∧
      Written r dump drawing d d') ∧
    ((¬ ∃ g steps, Accepted d r g steps) → ∃ outcome,
      (runRequest Directory.files { json := false, verbose, task := .dump r }).run d =
        (outcome, d) ∧
      outcome.code = 1 ∧ outcome.shown = "") := by
  constructor
  · intro g steps h
    obtain ⟨p, k, drawing, hp, hmade, hdrawing⟩ := exists_of_accepted h
    obtain ⟨d', hrun, hwritten⟩ := exists_runDump hr hp hdrawing
    exact ⟨k, p.dump, drawing, _, d', hmade, run_bind hrun, rfl, rfl, hwritten⟩
  · intro h
    cases hp : prepared d r with
    | ok p => exact absurd (exists_accepted hp) h
    | error e =>
      exact ⟨{ code := 1, remarks := [e.message] }, run_bind (run_runDump_of_error hp), rfl, rfl⟩

/-- What `tidyScript` is read from. -/
def tidyText : String := "xform_bblock: remove_trailing_jumps\nxform_bblock: remove_dead\n"

/-- A dump, bytes that are no text, and a script in another folder. -/
def forkFiles : Directory :=
  let home : Directory := .insert {} ("fork.dump", forkText)
  let folders : Directory := { home with entries := home.entries.insert ("/scripts", .folder) }
  (folders.put "/scripts/tidy" tidyText.toUTF8).put "/home/noise" ⟨#[255]⟩

theorem forkFiles_bytes :
    forkFiles.bytes "fork.dump" = .ok forkText.toUTF8 ∧
      forkFiles.bytes "/scripts/tidy" = .ok tidyText.toUTF8 ∧
      forkFiles.bytes "../home/noise" = .ok ⟨#[255]⟩ :=
  ⟨rfl, rfl, rfl⟩

/-- Tidies the dump in its place, in two rounds at most, and draws it. -/
def tidyRequest : DumpRequest where
  file := "fork.dump"
  script := some "/scripts/tidy"
  rounds := 2
  output := some "fork.dump"
  drawing := some "fork.dot"

theorem suitable_tidyRequest : Suitable forkFiles tidyRequest := by
  constructor
  · rintro _ ⟨⟩
    exact ⟨by decide, ⟨_, rfl⟩, ⟨_, rfl⟩⟩
  · rintro _ ⟨⟩
    exact ⟨by decide, ⟨_, rfl⟩, ⟨_, rfl⟩⟩
  · rintro _ ⟨⟩ _ ⟨⟩
    exact ⟨⟨by decide, by decide +kernel⟩, ⟨by decide, by decide +kernel⟩⟩

/-- The dump is tidied in its place and drawn, and the script stays. What is no text is refused. -/
theorem fork_tidied_in_place :
    (∃ (dump drawing : String) (outcome : Outcome) (d' : Directory),
      (runRequest Directory.files { json := false, verbose := true, task := .dump tidyRequest }).run
        forkFiles = (outcome, d') ∧
      outcome.code = 0 ∧ outcome.shown = "" ∧ d'.bytes "fork.dump" = .ok dump.toUTF8 ∧
      d'.bytes "fork.dot" = .ok drawing.toUTF8 ∧
      d'.at? "/scripts/tidy" = some (.file tidyText.toUTF8)) ∧
    ∃ outcome, (runRequest Directory.files
        { json := false, verbose := true, task := .dump { file := "../home/noise" } }).run
          forkFiles =
      (outcome, forkFiles) ∧ outcome.code = 1 ∧ outcome.shown = "" := by
  obtain ⟨hdump, htidy, hnoise⟩ := forkFiles_bytes
  constructor
  · obtain ⟨g, hg⟩ := exists_read_forkText
    have haccepted : Accepted forkFiles tidyRequest g tidyScript := by
      refine ⟨⟨forkText, hdump, hg⟩, ?_, ?_, by decide⟩
      · intro hnone
        exact absurd hnone (Option.some_ne_none _)
      · rintro _ ⟨⟩
        exact ⟨tidyText, htidy, by decide +kernel⟩
    obtain ⟨hdone, -⟩ := dump_command_all_or_nothing true suitable_tidyRequest
    obtain ⟨h, dump, drawing, outcome, d', -, hrun, hcode, hshown, hwritten⟩ :=
      hdone g tidyScript haccepted
    refine ⟨dump, drawing, outcome, d', hrun, hcode, hshown, hwritten.output _ rfl,
      hwritten.drawing _ rfl, ?_⟩
    rw [hwritten.others]
    · rfl
    · rintro _ (⟨⟨⟩⟩ | ⟨⟨⟩⟩)
      · exact ⟨by decide +kernel, by decide +kernel⟩
      · exact ⟨by decide +kernel, by decide +kernel⟩
  · have hsuitable : Suitable forkFiles { file := "../home/noise" } := ⟨nofun, nofun, nofun⟩
    obtain ⟨-, hrefused⟩ := dump_command_all_or_nothing true hsuitable
    refine hrefused ?_
    rintro ⟨g, steps, haccepted⟩
    obtain ⟨text, htext, -⟩ := haccepted.graph
    have hbytes : ByteArray.mk #[255] = text.toUTF8 := Except.ok.inj (hnoise.symm.trans htext)
    have hno : ¬ (ByteArray.mk #[255]).IsValidUTF8 := by decide +kernel
    rw [hbytes] at hno
    exact hno text.isValidUTF8

end FlowText.Command
