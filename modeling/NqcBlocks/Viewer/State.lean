import NqcBlocks.Output
import NqcBlocks.Viewer.BlockView
import NqcBlocks.Viewer.Browser
import NqcBlocks.Viewer.Panel
import NqcBlocks.Viewer.ProgramView

/-!
# Viewers

A viewer shows how a workspace becomes a program. It drives a session through the phases, step by step
or by a timer, and keeps what it shows: the two panels, the tree of blocks, the file browser, the
program and the line at the bottom.
-/

namespace NqcBlocks

open Files

namespace Viewer

inductive Tone where
  | info
  | error
  | success
  deriving DecidableEq, Repr

def Tone.name : Tone → String
  | .info => "info"
  | .error => "error"
  | .success => "success"

structure Bar where
  text : String
  tone : Tone := .info
  deriving DecidableEq, Repr

structure Timer where
  interval : Double
  paused : Bool
  deriving DecidableEq, Repr

def tenth : Double := .ofDecimal false 1 (-1)

def half : Double := .ofDecimal false 5 (-1)

end Viewer

open Viewer in
/-- **A viewer.** -/
structure Viewer where
  config : Config
  disk : Disk
  session : Session := {}
  phase : Phase := .input
  completed : Bool := false
  failed : Bool := false
  running : Bool := false
  errorMessage : String := ""
  workspace : Option Path := none
  fileName : String := ""
  bar : Bar := { text := "Press Ctrl+L to load a workspace." }
  left : Panel := { title := "Left Panel" }
  right : Panel := { title := "Right Panel" }
  interval : Double := half
  timer : Timer := { interval := half, paused := true }
  blocks : BlockView := {}
  kept : Option Graph := none
  browser : Option Branch := none
  program : ProgramView := {}

inductive ViewerError where
  | workspace (cause : WorkspaceError)
  | session (cause : SessionError)
  | refused (cause : FileError)
  | markup (cause : Viewer.MarkupError)
  | content (name : String)
  | noItem
  | noAction
  deriving Repr

def ViewerError.message? : ViewerError → Option String
  | .workspace cause => cause.message?
  | .session cause => cause.message?
  | .markup cause => some cause.message
  | .content name => some ("Unsupported content type: " ++ name ++ " for DynamicPanel.")
  | .refused _ | .noItem | .noAction => none

/-- **What a viewer does**: it changes the viewer and gives a result, or it fails and leaves what it had
changed by then. -/
abbrev Viewing := ExceptT ViewerError (StateM Viewer)

namespace Viewer

def title (v : Viewer) : String :=
  v.phase.heading ++ " | Program: " ++ (if v.fileName.isEmpty then "(none)" else v.fileName)

def shownGraph (v : Viewer) : Graph := v.kept.getD v.session.graph

def panel (v : Viewer) : Side → Panel
  | .left => v.left
  | .right => v.right

def updatePanel (v : Viewer) (side : Side) (f : Panel → Panel) : Viewer :=
  match side with
  | .left => { v with left := f v.left }
  | .right => { v with right := f v.right }

def withRunning (v : Viewer) (running : Bool) : Viewer :=
  if v.running = running then v
  else { v with running, timer := { v.timer with paused := !running } }

def withInterval (v : Viewer) (interval : Double) : Viewer :=
  if v.interval = interval then v
  else { v with interval, timer := { interval, paused := !v.running } }

def closing (v : Viewer) : Bar :=
  if v.failed then
    { text := v.phase.name ++ " failed. " ++ v.errorMessage
        ++ " Press ctrl+n to return to the workspace."
      tone := .error }
  else
    { text := v.phase.name ++ " completed successfully. Press ctrl+n to proceed.", tone := .success }

end Viewer

end NqcBlocks
