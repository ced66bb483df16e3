import NqcBlocks.Proofs.Viewer.Tracking

/-!
# What a viewer has written

When a viewer is through with generating code, two things can be said about it, by what it set out with. If the
last workspace it was asked for was loaded, it has done what a job does that compiles the workspace file
(`run_agrees_with_job`): the same program in the same file, or the same message. If the last one was refused, it
goes on showing the workspace from before, while the session has lost its blocks; the program that it then writes
over the file of the workspace it shows is the one of a graph without blocks (`refused_load_empties_session`).
-/

namespace NqcBlocks

open Files Option String Generation Workspace Compilation

theorem Generation.code_empty (options : Options) : code .empty options
    = .ok ((if options.preamble.isEmpty then "" else endLine options.preamble ++ "\n")
      ++ "task main()\n\x7b\n\x7d\n") := by
  have hsections : sections options {}
      = (if options.preamble.isEmpty then [] else [.preamble options.preamble]) ++ [.main []] := by
    simp [sections]
  have hrun : run .empty options
      = Gen.outcome (emitSections .empty (sections options {}) >>= fun _ => Gen.emit endReport)
        { options, names := { policy := options.policy }, reports := [startReport {}] } := rfl
  unfold code
  rw [hrun, hsections]
  cases options.preamble.isEmpty with
  | true => rfl
  | false =>
    show Except.ok (String.join ["", endLine options.preamble, "\n", "task main()\n\x7b\n", "\x7d\n", ""]) = _
    simp only [join_cons, join_nil, append_empty, empty_append, append_assoc, Bool.false_eq_true, if_false]
    rfl

namespace Viewer

open Viewing

/-! ## Viewers and jobs -/

theorem outcome_of_message {e : GenError} {message : String} (h : e.message? = some message) :
    e.outcome = .ok (.failed message) := by
  unfold GenError.outcome
  cases e with
  | defect => cases h
  | reserved | scope | unrenderable | graph =>
    dsimp only
    rw [h]
    rfl

theorem Work.Source.names_job {d : Disk} {g : Graph} {w : Work} (h : w.Source d g) {path : Path}
    (hpath : w.workspace = some path) :
    let j : Job := { input := path, outputRoot := w.config.outputRoot, config := some w.config }
    j.name = w.fileName ∧ j.directory = w.outputDirectory ∧ j.file = w.outputFile := by
  intro j
  -- the viewer has its name cleaned once, the job twice
  have hname : j.name = w.fileName := (j.name_of_config rfl rfl).trans (h.named path hpath).symm
  unfold Job.file Job.directory
  rw [hname]
  exact ⟨rfl, rfl, rfl⟩

/-- **Names of programs are in normal form.** Cleaning any name gives a file name, and it is the name itself if
that is one already, so that cleaning it once more changes nothing. It is the default name if there are only
forbidden characters and blanks, or if besides them there is the default name. So a viewer, in all that it does,
has the same file for the program of its workspace as a job that compiles the workspace. -/
theorem cleanFileName_normal_form (name : String) :
    IsFileName (cleanFileName name)
    ∧ (cleanFileName name = name ↔ IsFileName name)
    ∧ cleanFileName (cleanFileName name) = cleanFileName name
    ∧ (cleanFileName name = defaultProjectName ↔ (∀ c ∈ nameChars name, Text.isBlank c = true)
      ∨ ∃ front back, (∀ c ∈ front ++ back, Text.isBlank c = true)
        ∧ nameChars name = front ++ defaultProjectName.toList ++ back)
    ∧ ∀ (config : Config) (path : Path),
      let j : Job := { input := path, outputRoot := config.outputRoot, config := some config }
      j.name = config.programNameFor path
      ∧ ∀ (d : Disk) (events : List Event) (v : Viewer),
        (respondAll events).run.run (start config d) = (.ok (), v) → v.workspace = some path →
        v.fileName = j.name ∧ v.outputDirectory = j.directory ∧ v.outputFile = j.file := by
  refine ⟨isFileName_cleanFileName name, ⟨fun h => h ▸ isFileName_cleanFileName name, cleanFileName_eq_self⟩,
    cleanFileName_cleanFileName name, cleanFileName_eq_default_iff name, fun config path => ?_⟩
  refine ⟨Job.name_of_config _ rfl rfl, fun d events v hrun hpath => ?_⟩
  obtain ⟨-, hconfig, -, g, hsource, -⟩ := tracks_of_run hrun
  obtain rfl : v.config = config := hconfig
  obtain ⟨hname, hdirectory, hfile⟩ := hsource.names_job hpath
  exact ⟨hname.symm, hdirectory.symm, hfile.symm⟩

/-- The example is loaded; and a name is the default between an escape and a question mark. -/
theorem cleanFileName_normal_form_example : cleanFileName " \x1b\u00a0Untitled?\x1c " = defaultProjectName
    ∧ sampleLoaded.2.outputFile = ({ input := exampleWorkspace, config := some {} } : Job).file := by
  obtain ⟨-, -, -, hdefault, hfile⟩ := cleanFileName_normal_form " \x1b\u00a0Untitled?\x1c "
  obtain ⟨⟨_, hload⟩, -, -, -, -, hworkspace, -⟩ := of_glance sample_evaluated.1.1 rfl
  exact ⟨hdefault.mpr (.inr ⟨[' ', '\u00a0'], [' '], by decide, by decide⟩),
    ((hfile {} exampleWorkspace).2 sampleDisk _ _ hload hworkspace).2.2⟩

/-- **A viewer and a job agree.** Let a viewer answer any events, none of which went wrong in a way that it does
not report, on a disk that nobody else writes to; and let the last workspace it was asked for have been loaded.
If it is through with generating code, then compiling the workspace file comes to the same: if the viewer has
failed, it shows the message that the job ends with, and neither of them has written anything; otherwise both
have written the same program to the same file, with the same warnings. -/
theorem run_agrees_with_job {config : Config} {d : Disk} {events : List Event} {v : Viewer}
    (hrun : (respondAll events).run.run (start config d) = (.ok (), v)) (hloaded : v.kept = none)
    (hphase : v.phase = .generation) (hended : v.completed = true) :
    ∃ path g, v.workspace = some path ∧ Workspace.ofFile d path = .ok g ∧
      let j : Job := { input := path, outputRoot := config.outputRoot, config := some config }
      let c := Compilation.ofGraph g config.options
      (v.failed = true → j.run d = (d, .ok (.failed v.errorMessage)) ∧ v.disk = d)
      ∧ (v.failed = false →
        j.file = (config.outputRoot.child v.fileName).child (v.fileName ++ ".nqc")
        ∧ v.disk.entry? (j.file.resolve d.cwd) = some (.file (.text c.code))
        ∧ v.session.warnings = c.warnings
        ∧ j.run d = (v.disk, .ok (.written j.file (completion j.file c.warnings)))) := by
  obtain ⟨-, hconfig, hbegun, g, hsource, hstage⟩ := tracks_of_run hrun
  obtain rfl : v.config = config := hconfig
  have hp : v.work.phase = .generation := hphase
  have hc : v.work.completed = true := hended
  have hsome : v.workspace.isSome = true := hbegun (hp ▸ Phase.noConfusion)
  obtain ⟨path, hpath⟩ := Option.isSome_iff_exists.mp hsome
  have hfile : Workspace.ofFile d path = .ok g := hsource.loaded hloaded path hpath
  refine ⟨path, g, hpath, hfile, ?_⟩
  intro j c
  have hinput : Workspace.ofFile d j.input = .ok g := hfile
  have hoptions : Compilation.ofGraph g j.options = c := rfl
  refine ⟨fun hfailed => ?_, fun hfailed => ?_⟩
  · simp only [Work.Stage, hp, hc, show v.work.failed = true from hfailed] at hstage
    obtain ⟨hdisk, -, e, herror, hmessage⟩ := hstage
    refine ⟨?_, hdisk⟩
    unfold Job.run
    simp only [hinput, hoptions, show c.error = some e from herror, outcome_of_message hmessage]
    rfl
  · simp only [Work.Stage, hp, hc, show v.work.failed = false from hfailed] at hstage
    obtain ⟨herror, hwarnings, hwrite⟩ := hstage
    obtain ⟨-, hdirectory, houtput⟩ : j.name = v.work.fileName ∧ j.directory = v.work.outputDirectory
      ∧ j.file = v.work.outputFile := hsource.names_job hpath
    have hwritten : writeProgram d j.directory j.file c.code = (v.disk, .ok ()) := by
      rw [hdirectory, houtput]
      exact hwrite
    refine ⟨houtput, (writes_of_writeProgram hwritten).file, hwarnings, ?_⟩
    exact Job.run_eq_written hinput herror hwritten

/-- The example is loaded and compiled. -/
theorem run_agrees_with_job_example :
    ∃ v, (respondAll (.action "load_example" :: sampleFinish)).run.run (start {} sampleDisk) = (.ok (), v)
      ∧ v.kept = none ∧ v.phase = .generation ∧ v.completed = true ∧ v.failed = false
      ∧ ∃ message, ({ input := exampleWorkspace, config := some {} } : Job).run sampleDisk
        = (v.disk, .ok (.written (Path.ofString "outputs/line_follower/line_follower.nqc") message)) := by
  obtain ⟨⟨hloaded, -, hdone⟩, -⟩ := sample_evaluated
  obtain ⟨⟨_, hload⟩, -⟩ := of_glance hloaded rfl
  obtain ⟨⟨_, hfinish⟩, hphase, hended, hfailed, hkept, hworkspace, -⟩ := of_glance hdone rfl
  have hkept := Option.isNone_iff_eq_none.mp (Option.isSome_eq_false_iff.mp hkept)
  have hrun := (exec_respondAll_append [.action "load_example"] sampleFinish hload).trans hfinish
  refine ⟨_, hrun, hkept, hphase, hended, hfailed, ?_⟩
  obtain ⟨path, g, hpath, -, -, hagree⟩ := run_agrees_with_job hrun hkept hphase hended
  obtain rfl : path = exampleWorkspace := Option.some.inj (hpath.symm.trans hworkspace)
  exact ⟨_, (hagree hfailed).2.2.2⟩

/-! ## Refused workspaces -/

theorem compilation_empty (options : Options) : (ofGraph .empty options).error = none
    ∧ code .empty options = .ok (ofGraph .empty options).code := by
  have hcode : code .empty options = _ := code_validate .empty options
  rw [code_empty] at hcode ⊢
  cases herror : (ofGraph .empty options).error with
  | some e =>
    rw [herror] at hcode
    cases hcode
  | none =>
    rw [herror] at hcode
    exact ⟨rfl, hcode⟩

theorem Work.Tracks.written_of_refused {config : Config} {d : Disk} {w : Work} (h : w.Tracks config d)
    (hkept : w.kept ≠ none) (hphase : w.phase = .generation) (hended : w.completed = true) :
    w.failed = false ∧ ∃ program, code .empty config.options = .ok program
      ∧ w.disk.entry? (w.outputFile.resolve d.cwd) = some (.file (.text program)) := by
  obtain ⟨rfl, -, g, hsource, hstage⟩ := h
  obtain rfl : g = .empty := hsource.refused hkept
  obtain ⟨herror, hcode⟩ := compilation_empty w.config.options
  cases hfailed : w.failed with
  | true =>
    simp only [Stage, hphase, hended, hfailed] at hstage
    obtain ⟨-, -, e, he, -⟩ := hstage
    rw [herror] at he
    cases he
  | false =>
    simp only [Stage, hphase, hended, hfailed] at hstage
    exact ⟨rfl, _, hcode, (writes_of_writeProgram hstage.2.2).file⟩

theorem exec_post (text : String) (tone : Tone) (v : Viewer) :
    ∃ bar, (exec (post text tone) v).2 = { v with bar } := by
  unfold post
  rw [exec_bind]
  show ∃ bar, (exec (display text >>= fun _ => modify fun v => { v with bar := { v.bar with tone } })
    { v with bar := { v.bar with text } }).2 = { v with bar }
  unfold display
  cases StyledText.ofMarkup text with
  | error e => exact ⟨_, rfl⟩
  | ok => exact ⟨_, rfl⟩

theorem exec_load_refused {v : Viewer} {path : Path} {e : WorkspaceError} (hfile : ofFile v.disk path = .error e) :
    ∃ bar, (exec (load path) v).2 = { v with
      session := { v.session.reset with fileName := path.stem }, kept := some v.shownGraph, bar } := by
  have hsession : v.session.loadFile v.disk path = ({ v.session.reset with fileName := path.stem }, .error e) := by
    unfold Session.loadFile
    rw [hfile]
  unfold load
  rw [exec_get_bind, hsession]
  dsimp only
  rw [exec_set_bind]
  cases e.message? with
  | none => exact ⟨v.bar, rfl⟩
  | some message =>
    dsimp only
    obtain ⟨bar, hpost⟩ := exec_post ("Error loading workspace: " ++ message) .error { v with
      session := { v.session.reset with fileName := path.stem }, kept := some v.shownGraph }
    refine ⟨bar, ?_⟩
    rw [exec_bind]
    rcases hexec : exec (post ("Error loading workspace: " ++ message) .error) { v with
      session := { v.session.reset with fileName := path.stem }, kept := some v.shownGraph } with ⟨o, v'⟩
    rw [hexec] at hpost
    cases o with
    | error e' => exact hpost
    | ok _ => exact hpost

/-- **A refused workspace empties the session of a viewer that goes on showing another one.** In the first phase,
with a workspace loaded, let a file be refused. What the viewer shows and where it will
write is as before: the workspace and its name, the tree of blocks, the output file. The session has no blocks and
the name of the refused file. The way on is open all the same, and whatever the viewer goes on to do, if it still
shows that workspace when it is through with generating code, then it has not failed, and what it has written to
the output file of the workspace is the program of no blocks. -/
theorem refused_load_empties_session {config : Config} {d : Disk} {events : List Event} {v : Viewer}
    (hrun : (respondAll events).run.run (start config d) = (.ok (), v)) (hphase : v.phase = .input)
    {path : Path} (hpath : v.workspace = some path) (hloaded : v.kept = none) {file : Path}
    {e : WorkspaceError} (hfile : Workspace.ofFile v.disk file = .error e) :
    let v' := ((load file).run.run v).2
    Workspace.ofFile d path = .ok v'.shownGraph
    ∧ (v'.workspace = some path ∧ v'.title = v.title ∧ v'.blocks = v.blocks
      ∧ v'.outputFile = v.outputFile)
    ∧ (v'.session.graph = .empty ∧ v'.session.fileName = file.stem)
    ∧ v'.allows .startValidation = true
    ∧ ∀ later v'', (respondAll later).run.run v' = (.ok (), v'') →
      v''.workspace = some path → v''.kept ≠ none → v''.phase = .generation → v''.completed = true →
      v''.failed = false
      ∧ v''.outputFile = v.outputFile
      ∧ ∃ program, Generation.code .empty config.options = .ok program
        ∧ v''.disk.entry? (v.outputFile.resolve d.cwd) = some (.file (.text program)) := by
  intro v'
  obtain ⟨hsane, htracks⟩ := tracks_of_run hrun
  obtain ⟨bar, hv'⟩ : ∃ bar, v' = { v with
      session := { v.session.reset with fileName := file.stem }, kept := some v.shownGraph, bar } :=
    exec_load_refused hfile
  have hmove : Work.Moves v.work v'.work := by
    rw [hv']
    exact .refuses (w := v.work) hphase hfile
  obtain ⟨hconfig, -, g, hsource, hstage⟩ := id htracks
  obtain rfl : v.config = config := hconfig
  simp only [Work.Stage, show v.work.phase = .input from hphase] at hstage
  have hgraph : v.session.graph = g := hstage.2
  refine ⟨?_, ?_, ⟨?_, ?_⟩, ?_, ?_⟩
  · have hshown : v'.shownGraph = g := by
      rw [hv', ← hgraph]
      show v.kept.getD v.session.graph = _
      rw [hloaded]
      rfl
    rw [hshown]
    exact hsource.loaded hloaded path hpath
  · rw [hv']
    exact ⟨hpath, rfl, rfl, rfl⟩
  · rw [hv']
    exact Work.graph_refused (w := v.work) (hstage.2 ▸ hsource.forest) file
  · rw [hv']
  · rw [hv']
    show (decide (v.phase = .input) && v.workspace.isSome) = true
    rw [hphase, hpath]
    rfl
  · intro later v'' hlater hpath'' hkept hphase'' hended
    have hsane' := hmove.sane hsane
    have htracks' : v''.work.Tracks v.config d := (htracks.moves hsane hmove).reaches hsane'
      (reaches_respondAll later hsane' () v'' hlater)
    obtain ⟨hfailed, program, hcode, hwritten⟩ := htracks'.written_of_refused hkept hphase'' hended
    have houtput : v''.outputFile = v.outputFile := by
      obtain ⟨g', hsource', -⟩ := htracks'.stage
      have hname : v''.fileName = v.fileName :=
        calc v''.fileName = v''.work.config.programNameFor path := hsource'.named path hpath''
          _ = v.work.config.programNameFor path := by rw [htracks'.config_eq]; rfl
          _ = v.fileName := (hsource.named path hpath).symm
      have hroot : v''.config = v.config := htracks'.config_eq
      show (v''.config.outputRoot.child v''.fileName).child (v''.fileName ++ ".nqc") = _
      rw [hroot, hname]
      rfl
    exact ⟨hfailed, houtput, program, hcode, houtput ▸ hwritten⟩

/-- The example is loaded, and a file refused. -/
theorem refused_load_empties_session_example :
    sampleRefused.2.workspace = some exampleWorkspace
      ∧ Workspace.ofFile sampleDisk exampleWorkspace = .ok sampleRefused.2.shownGraph
      ∧ sampleRefused.2.session.graph = .empty
      ∧ ∃ v, (respondAll sampleFinish).run.run sampleRefused.2 = (.ok (), v)
        ∧ v.outputFile = sampleLoaded.2.outputFile
        ∧ ∃ program, Generation.code .empty {} = .ok program
          ∧ v.disk.entry? (sampleLoaded.2.outputFile.resolve []) = some (.file (.text program)) := by
  obtain ⟨⟨hloaded, hbroken, -⟩, -, hdone⟩ := sample_evaluated
  have hrefused : sampleRefused = (load (Path.ofString "broken.json")).run.run sampleLoaded.2 := rfl
  rw [hrefused] at hdone ⊢
  obtain ⟨⟨_, hload⟩, hphase, -, -, hkept, hworkspace, -⟩ := of_glance hloaded rfl
  have hkept := Option.isNone_iff_eq_none.mp (Option.isSome_eq_false_iff.mp hkept)
  obtain ⟨⟨_, hfinish⟩, hphase', hended', -, hkept', hworkspace', -⟩ := of_glance hdone rfl
  cases hfile : Workspace.ofFile sampleLoaded.2.disk (Path.ofString "broken.json") with
  | ok g =>
    rw [hfile] at hbroken
    cases hbroken
  | error e =>
    obtain ⟨hshown, ⟨hworkspace, -⟩, ⟨hempty, -⟩, -, hlater⟩ :=
      refused_load_empties_session hload hphase hworkspace hkept hfile
    obtain ⟨-, houtput, hprogram⟩ := hlater sampleFinish _ hfinish hworkspace'
      (Option.isSome_iff_ne_none.mp hkept') hphase' hended'
    exact ⟨hworkspace, hshown, hempty, _, hfinish, houtput, hprogram⟩

/-- The example is compiled, at once and after a file was refused: the viewer shows the same workspace and writes
to the same file, and the motor is no longer turned off. -/
theorem refused_load_overwrites_program :
    let file := ["outputs", "line_follower", "line_follower.nqc"]
    sampleRefused.2.workspace = sampleLoaded.2.workspace
    ∧ ((respondAll sampleFinish).run.run sampleLoaded.2).2.disk.entry? file
      = some (.file (.text "task main()\n\x7b\n  Off(OUT_A);\n\x7d\n"))
    ∧ ((respondAll sampleFinish).run.run sampleRefused.2).2.disk.entry? file
      = some (.file (.text "task main()\n\x7b\n\x7d\n")) := by
  obtain ⟨⟨hloaded, -, hdone⟩, hrefused, hdone'⟩ := sample_evaluated
  obtain ⟨-, -, -, -, -, hworkspace, -⟩ := of_glance hloaded rfl
  obtain ⟨-, -, -, -, -, hworkspace', -⟩ := of_glance hrefused rfl
  obtain ⟨-, -, -, -, -, -, hprogram⟩ := of_glance hdone rfl
  obtain ⟨-, -, -, -, -, -, hprogram'⟩ := of_glance hdone' rfl
  exact ⟨hworkspace'.trans hworkspace.symm, hprogram, hprogram'⟩

end Viewer

end NqcBlocks
