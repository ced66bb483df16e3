import NqcBlocks.Viewer.Run

/-!
# Actions

What a user can ask of a viewer: the actions that keys are bound to, and picking something in one of
the trees. Which actions are open depends on the phase and on whether it is running or over.
-/

namespace NqcBlocks.Viewer

open Files

/-- **The actions**, in the order of their keys. -/
inductive Action where
  | loadFile
  | toggleAutoProgress
  | increaseSpeed
  | decreaseSpeed
  | completeStep
  | startValidation
  | manualTick
  | loadExample
  deriving DecidableEq, Repr

namespace Action

def all : List Action :=
  [.loadFile, .toggleAutoProgress, .increaseSpeed, .decreaseSpeed, .completeStep, .startValidation,
   .manualTick, .loadExample]

def name : Action → String
  | .loadFile => "load_file"
  | .toggleAutoProgress => "toggle_auto_progress"
  | .increaseSpeed => "increase_speed"
  | .decreaseSpeed => "decrease_speed"
  | .completeStep => "complete_step"
  | .startValidation => "start_validation"
  | .manualTick => "manual_tick"
  | .loadExample => "load_example"

def ofName? (s : String) : Option Action := all.find? (·.name == s)

def key : Action → String
  | .loadFile => "ctrl+l"
  | .toggleAutoProgress => "ctrl+r"
  | .increaseSpeed => "+"
  | .decreaseSpeed => "-"
  | .completeStep => "ctrl+n"
  | .startValidation => "ctrl+s"
  | .manualTick => "t"
  | .loadExample => "ctrl+e"

def description : Action → String
  | .loadFile => "Load Workspace"
  | .toggleAutoProgress => "Pause/Unpause"
  | .increaseSpeed => "Increase Speed"
  | .decreaseSpeed => "Decrease Speed"
  | .completeStep => "Complete Step/next Step"
  | .startValidation => "Start Validation"
  | .manualTick => "Progress 1 Tick"
  | .loadExample => "Load Example Workspace"

end Action

def allows (v : Viewer) : Action → Bool
  | .loadFile | .loadExample => v.phase = .input
  | .startValidation => v.phase = .input && v.workspace.isSome
  | .toggleAutoProgress => v.phase.isStepped && !v.completed
  | .increaseSpeed | .decreaseSpeed => v.phase != .input && v.running
  | .manualTick => v.phase.isStepped && !v.running && !v.completed
  | .completeStep => v.phase.isStepped

def allowsNamed (v : Viewer) (name : String) : Bool :=
  match Action.ofName? name with
  | none => true
  | some action => v.allows action

def exampleWorkspace : Path := { parts := ["examples", "workspaces", "line_follower.json"] }

def toggleBrowser : Viewing Unit := do
  let v ← get
  if v.phase != .input then return
  if v.right.content = .directoryTree then ask .right .hidden
  else
    ask .right .directoryTree
    modify fun v => { v with browser := some (browse v.disk) }
    post "Select a .json workspace to load."

def completeStep : Viewing Unit := do
  let v ← get
  if v.failed then enter .input
  else if v.completed then
    match v.phase.next? with
    | none => return
    | some phase => enter phase
  else
    set (v.withRunning false)
    tickWithin v.stepBound

def perform : Action → Viewing Unit
  | .loadFile => toggleBrowser
  | .loadExample => do
    match (← get).disk.find exampleWorkspace with
    | .error _ => post "Example workspace not found." .error
    | .ok _ => discard (load exampleWorkspace)
  | .startValidation => enter .validation
  | .toggleAutoProgress => modify fun v => v.withRunning (!v.running)
  | .increaseSpeed => modify fun v =>
    let faster := v.interval.sub tenth
    v.withInterval (if (Number.double faster).lt (.double tenth) then tenth else faster)
  | .decreaseSpeed => modify fun v => v.withInterval (v.interval.add tenth)
  | .manualTick => do
    if (← get).running then return
    tick
  | .completeStep => completeStep

def act (name : String) : Viewing Bool := do
  if (← get).allowsNamed name then
    match Action.ofName? name with
    | none => throw .noAction
    | some action => perform action
    return true
  else return false

/-! ## Picking -/

def selectItem (way : List Int) : Viewing Unit := do
  let v ← get
  match itemAt? way v.blocks.root with
  | none => throw .noItem
  | some item => match item.block with
    | none => return
    | some h =>
      if v.phase = .generation && v.completed then
        let (program, found) := v.program.reveal h
        set { v with program }
        if !found then post ("Block " ++ Number.natText h ++ " wrote no code of its own.")

def selectBranch (way : List Int) : Viewing Unit := do
  let v ← get
  match v.browser with
  | none => if way.isEmpty then return else throw .noItem
  | some root => match branchAt? way root with
    | none => throw .noItem
    | some branch =>
      if v.phase != .input || v.right.content != .directoryTree then return
      if v.disk.isDirectory branch.path then
        set { v with browser := some (toggleAt way root) }
      else if isWorkspaceFile v.disk branch.path then
        if ← load branch.path then ask .right .hidden

/-! ## Panels -/

def adjustPanel (side : Side) (title content : Option String) : Viewing Unit := do
  match title with
  | none => pure ()
  | some title => retitle side title
  match content with
  | none => pure ()
  | some name => ask side (.ofName name)

end NqcBlocks.Viewer
