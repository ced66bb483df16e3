import NqcBlocks.Viewer.State

/-!
# Running a viewer

Loading workspaces, entering phases, and taking the steps of a phase.
-/

namespace NqcBlocks.Viewer

open Files

/-! ## Showing -/

def display (text : String) : Viewing Unit :=
  match StyledText.ofMarkup text with
  | .error e => throw (.markup e)
  | .ok _ => pure ()

def post (text : String) (tone : Tone := .info) : Viewing Unit := do
  modify fun v => { v with bar := { v.bar with text } }
  display text
  modify fun v => { v with bar := { v.bar with tone } }

def refreshTitle (before : String) : Viewing Unit := do
  let title := (← get).title
  if title != before then display title

def retitle (side : Side) (title : String) : Viewing Unit := do
  let (p, outcome) := ((← get).panel side).retitle title
  modify fun v => v.updatePanel side fun _ => p
  match outcome with
  | .ok () => pure ()
  | .error e => throw (.markup e)

def ask (side : Side) (content : PanelContent) : Viewing Unit := do
  let (p, outcome) := ((← get).panel side).ask content
  modify fun v => v.updatePanel side fun _ => p
  match outcome with
  | .ok () => pure ()
  | .error name => throw (.content name)

/-! ## Workspaces -/

/-- **Load a workspace.** Answers whether it could be loaded; if it could not, the viewer goes on
showing what it showed. -/
def load (path : Path) : Viewing Bool := do
  let v ← get
  match v.session.loadFile v.disk path with
  | (session, .error e) =>
    set { v with session, kept := some v.shownGraph }
    match e.message? with
    | none => throw (.workspace e)
    | some message =>
      post ("Error loading workspace: " ++ message) .error
      return false
  | (session, .ok ()) =>
    set { v with
      session, kept := some v.shownGraph, workspace := some path
      fileName := v.config.programNameFor path }
    refreshTitle v.title
    modify fun v => { v with kept := none, blocks := .ofGraph session.graph path.name }
    post ("Loaded " ++ path.name ++ ": " ++ Number.natText session.graph.size
      ++ " block(s). Press ctrl+S to start validation.") .success
    return true

/-! ## Phases -/

def prepare : Phase → Viewing Unit
  | .input => do
    match (← get).workspace with
    | none => return
    | some path => discard (load path)
  | .validation => modify fun v =>
    { v with
      right := { v.right with warnings := .reset (some v.session.graph) }
      session := v.session.beginValidation }
  | .generation => modify fun v =>
    { v with program := {}, session := v.session.beginCode v.config.options }
  | .review => do
    let session := (← get).session
    let table := session.warnings.foldl (fun t w => t.add "" w.1 w.2)
      (WarningTable.reset (some session.graph))
    modify fun v => { v with left := { v.left with warnings := table } }
    if session.warnings.isEmpty then post "No warnings. The generated code is ready." .success

def showPhase (phase : Phase) : Viewing Unit := do
  let before := (← get).title
  modify fun v => { v with phase }
  refreshTitle before
  retitle .left phase.leftTitle
  ask .left phase.left
  retitle .right phase.rightTitle
  ask .right phase.right
  post phase.greeting

def enter (phase : Phase) : Viewing Unit := do
  showPhase phase
  prepare phase
  modify fun v =>
    { { v with completed := false, failed := false }.withRunning false with errorMessage := "" }

def complete (completed : Bool) : Viewing Unit := do
  let v ← get
  if v.completed = completed then return
  set { v with completed }
  if completed then
    modify fun v => v.withRunning false
    let closing := (← get).closing
    post closing.text closing.tone

/-! ## Steps -/

def remark (message : String) : Viewing Unit :=
  if message.isEmpty then pure () else post message

def applyValidation (v : Viewer) (r : ValidationReport) : Viewer :=
  let warnings := match r.warning.bind someText with
    | none => v.right.warnings
    | some text => v.right.warnings.add "1" (some r.node) text
  { v with
    blocks := (v.blocks.refresh v.shownGraph r.node).focus (some r.node)
    right := { v.right with warnings } }

def validationStep : Viewing Bool := do
  let v ← get
  let (session, outcome) := v.session.tickValidation
  set { v with session }
  match outcome with
  | .error e => throw (.session e)
  | .ok none => return true
  | .ok (some report) =>
    modify fun v => v.applyValidation report
    remark report.message
    return false

def outputDirectory (v : Viewer) : Path := v.config.outputRoot.child v.fileName

def outputFile (v : Viewer) : Path := v.outputDirectory.child (v.fileName ++ ".nqc")

def save : Viewing Unit := do
  let v ← get
  let (disk, outcome) := writeProgram v.disk v.outputDirectory v.outputFile v.session.outputCode
  set { v with disk }
  match outcome with
  | .error e => throw (.refused e)
  | .ok () =>
    post ("Code generation completed. Output written to " ++ v.outputFile.text ++ ".") .success

def applyCode (v : Viewer) (r : CodeReport) : Viewer :=
  { v with blocks := v.blocks.focus r.node, program := v.program.apply r }

def failGeneration (e : SessionError) : Viewing Bool :=
  match e with
  | .generation cause => match cause.message? with
    | some message => do
      modify fun v => { v.withRunning false with errorMessage := message, failed := true }
      return true
    | none => throw (.session e)
  | _ => throw (.session e)

def generationStep : Viewing Bool := do
  let v ← get
  if v.failed then return true
  let (session, outcome) := v.session.tickCode
  set { v with session }
  match outcome with
  | .error e => failGeneration e
  | .ok none =>
    save
    return true
  | .ok (some report) =>
    modify fun v => v.applyCode report
    remark report.message
    return false

def tick : Viewing Unit := do
  match (← get).phase with
  | .validation =>
    complete (← validationStep)
  | .generation =>
    complete (← generationStep)
  | .input | .review => return

def tickWithin : Nat → Viewing Unit
  | 0 => pure ()
  | fuel + 1 => do
    let v ← get
    if v.completed || v.failed then return
    tick
    tickWithin fuel

def stepBound (v : Viewer) : Nat :=
  let validation := match v.session.validation with
    | none => 0
    | some run => (run.remaining.getD v.session.graph.tasks).length
  validation + v.session.codeBound + 2

def fire : Viewing Bool := do
  if (← get).timer.paused then return false
  tick
  return true

def start (config : Config) (disk : Disk) : Viewer :=
  (enter .input |>.run.run { config, disk }).2

end NqcBlocks.Viewer
