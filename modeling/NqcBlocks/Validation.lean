import NqcBlocks.Graph.Edit
import NqcBlocks.Naming.Reserved

/-!
# Validation of tasks

Two rules hold for the tasks of a program. Only the first main task counts, and a named task needs a
name that is not reserved and that no earlier enabled named task has. A task that breaks a rule is
disabled and carries a warning; one that breaks none is enabled and carries none. Nothing else of a
graph is touched.
-/

namespace NqcBlocks

structure Verdict where
  enabled : Bool
  warning : Option String
  deriving DecidableEq, Repr

inductive ValidationError where
  | noMainTask
  deriving DecidableEq, Repr

namespace Verdict

def fine : Verdict := ⟨true, none⟩

def extraMain : Verdict := ⟨false, some "Only one main task is allowed; this one is disabled."⟩

def nameRequired : Verdict := ⟨false, some "Task name required."⟩

def reservedName (name : String) : Verdict :=
  ⟨false, some ("Reserved name: \"" ++ name ++ "\" cannot be used as a task name.")⟩

def duplicateName (name : String) : Verdict :=
  ⟨false, some ("Duplicate name: another task is already called \"" ++ name ++ "\".")⟩

def changes (v : Verdict) (n : Node) : Bool :=
  n.enabled != v.enabled || n.warning != v.warning

end Verdict

structure ValidationReport where
  node : Handle
  message : String
  enabled : Bool
  changed : Bool
  warning : Option String
  deriving DecidableEq, Repr

namespace Graph

def mainVerdict (g : Graph) (n : Node) : Except ValidationError Verdict :=
  match g.blocksOfKind .mainTask with
  | [] => .error .noMainTask
  | first :: _ => .ok (if first.handle == n.handle then .fine else .extraMain)

def namedVerdict (g : Graph) (n : Node) : Verdict :=
  let name := n.text "NAME"
  let earlier := (g.blocksOfKind .namedTask).takeWhile fun o => o.handle != n.handle
  if name.isEmpty then .nameRequired
  else if isReservedTask name then .reservedName name
  else if earlier.any fun o => o.enabled && o.text "NAME" == name then .duplicateName name
  else .fine

def verdict (g : Graph) (n : Node) : Except ValidationError (Option Verdict) :=
  match n.kind with
  | .mainTask => (g.mainVerdict n).map some
  | .namedTask => .ok (some (g.namedVerdict n))
  | _ => .ok none

def reportOf (n : Node) (v : Verdict) : ValidationReport :=
  { node := n.handle
    message := "Checked " ++ n.kind.tag ++ " block: " ++ v.warning.getD "OK."
    enabled := v.enabled, changed := v.changes n, warning := v.warning }

def checkNode (g : Graph) (h : Handle) :
    Except ValidationError (Graph × Option ValidationReport) :=
  match g.lastState? h with
  | none => .ok (g, none)
  | some n => match g.verdict n with
    | .error e => .error e
    | .ok none => .ok (g, none)
    | .ok (some v) => .ok (g.setFlags h v.enabled v.warning, some (reportOf n v))

def tasks (g : Graph) : List Handle :=
  (g.nodes.filter fun n => n.kind.isTask).map (·.handle)

def checkAll : Graph → List Handle → Graph × List ValidationReport
  | g, [] => (g, [])
  | g, h :: rest => match g.checkNode h with
    | .error _ => checkAll g rest
    | .ok (g', report) =>
      let (g'', reports) := checkAll g' rest
      (g'', report.toList ++ reports)

def review (g : Graph) : Graph × List ValidationReport := g.checkAll g.tasks

def validate (g : Graph) : Graph × Nat :=
  let (g', reports) := g.review
  (g', reports.countP (·.changed))

end Graph

/-! ## One task at a time -/

structure ValidationRun where
  remaining : Option (List Handle) := none
  deriving DecidableEq, Repr, Inhabited

namespace ValidationRun

def step (run : ValidationRun) (g : Graph) :
    ValidationRun × Graph × Except ValidationError (Option ValidationReport) :=
  match run.remaining.getD g.tasks with
  | [] => (⟨some []⟩, g, .ok none)
  | h :: rest => match g.checkNode h with
    | .error e => (⟨some []⟩, g, .error e)
    | .ok (g, report) => (⟨some rest⟩, g, .ok report)

end ValidationRun

end NqcBlocks
