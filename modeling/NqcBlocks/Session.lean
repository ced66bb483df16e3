import NqcBlocks.Editor
import NqcBlocks.Program.Stream

/-!
# Sessions

A session takes a program through validation and generation, step by step, and collects what comes of
it: the code written so far and the warnings. It is what a viewer drives and what compiling a file
runs through.
-/

namespace NqcBlocks

/-- A warning, and the block it is about. -/
abbrev Warning := Option Handle × String

structure Session where
  editor : Editor := {}
  fileName : String := ""
  outputCode : String := ""
  warnings : List Warning := []
  validation : Option ValidationRun := none
  codeRun : Option CodeRun := none
  deriving Inhabited

inductive SessionError where
  | validationNotStarted
  | codeNotStarted
  | validation (cause : ValidationError)
  | generation (cause : GenError)
  deriving Repr

def SessionError.message? : SessionError → Option String
  | .validationNotStarted => some "Validation generator not initialized."
  | .codeNotStarted => some "Code generator not initialized."
  | .validation _ => none
  | .generation cause => cause.message?

namespace Session

def graph (s : Session) : Graph := s.editor.graph

def withGraph (s : Session) (g : Graph) : Session :=
  { s with editor := { s.editor with graph := g } }

def reset (s : Session) : Session :=
  { editor := { graph := { catalog := s.graph.catalog }, log := s.editor.log } }

def restart (s : Session) (fileName : String) : Session := { editor := s.editor, fileName }

def warn (s : Session) (node : Option Handle) (warning : Option String) : Session :=
  match warning.bind someText with
  | none => s
  | some text => { s with warnings := s.warnings ++ [(node, text)] }

/-! ## Validation -/

def beginValidation (s : Session) : Session :=
  { s with warnings := [], validation := some {} }

def tickValidation (s : Session) : Session × Except SessionError (Option ValidationReport) :=
  match s.validation with
  | none => (s, .error .validationNotStarted)
  | some run =>
    let (run, g, outcome) := run.step s.graph
    let s := { s.withGraph g with validation := some run }
    match outcome with
    | .error cause => (s, .error (.validation cause))
    | .ok none => (s, .ok none)
    | .ok (some report) => (s.warn report.node report.warning, .ok (some report))

def finishValidationWithin : Nat → Session → Session × Except SessionError Unit
  | 0, s => (s, .ok ())
  | fuel + 1, s => match s.tickValidation with
    | (s, .error e) => (s, .error e)
    | (s, .ok none) => (s, .ok ())
    | (s, .ok (some _)) => finishValidationWithin fuel s

def finishValidation (s : Session) : Session × Except SessionError Unit :=
  match s.validation with
  | none => (s, .ok ())
  | some run => finishValidationWithin ((run.remaining.getD s.graph.tasks).length + 1) s

/-! ## Generation -/

def beginCode (s : Session) (options : Options := {}) : Session :=
  { s with outputCode := "", codeRun := some (.start options) }

def tickCode (s : Session) : Session × Except SessionError (Option CodeReport) :=
  match s.codeRun with
  | none => (s, .error .codeNotStarted)
  | some run =>
    let (run, outcome) := run.step s.graph
    let s := { s with codeRun := some run }
    match outcome with
    | .error cause => (s, .error (.generation cause))
    | .ok none => (s, .ok none)
    | .ok (some report) =>
      let s := { s with outputCode := s.outputCode ++ report.newCode.getD "" }
      (s.warn report.node report.warning, .ok (some report))

def finishCodeWithin : Nat → Nat → Session → Session × Except SessionError Nat
  | 0, count, s => (s, .ok count)
  | fuel + 1, count, s => match s.tickCode with
    | (s, .error e) => (s, .error e)
    | (s, .ok none) => (s, .ok count)
    | (s, .ok (some _)) => finishCodeWithin fuel (count + 1) s

def codeBound (s : Session) : Nat :=
  let blocks := s.graph.cells.size + 4
  let waiting := match s.codeRun with
    | none => 0
    | some run => run.agenda.length + run.pending.length
  (waiting + blocks) * (blocks + 4) + 8

def finishCode (s : Session) : Session × Except SessionError Nat :=
  finishCodeWithin s.codeBound 0 s

end Session

end NqcBlocks
