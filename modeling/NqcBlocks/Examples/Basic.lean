import NqcBlocks.Output

/-!
# Example workspaces

The examples are the workspace files of one directory. Each is compiled under its own name into the
directory of the outputs; the program it should give, if that is known, is kept beside it.
-/

namespace NqcBlocks.Examples

open Files

def directory : Path := { parts := ["examples", "workspaces"] }

def outputRoot : Path := { parts := ["outputs"] }

def isWorkspaceName (name : String) : Bool := ".json".toList.isSuffixOf name.toList

def workspaces (d : Disk) : List Path :=
  match d.locate directory with
  | .error _ => []
  | .ok (l, _) => ((d.list l).filter fun e => isWorkspaceName e.1).map fun e => directory.child e.1

def expectedPath (workspace : Path) : Path := workspace.withSuffix ".nqc"

def compile (workspace : Path) (d : Disk) : Disk × Except RunError Outcome :=
  Job.run { input := workspace, programName := some workspace.stem, outputRoot } d

def readText (d : Disk) (p : Path) : Except RunError String :=
  match d.readText p with
  | .ok s => .ok s
  | .error .notText => .error .notText
  | .error (.refused cause) => .error (.refused cause)

def holds (d : Disk) (p : Path) : Except RunError Bool := (d.holds p).mapError .refused

structure Run where
  lines : List String
  exitCode : Nat
  deriving DecidableEq, Repr

def Run.output (r : Run) : String := String.join (r.lines.map (· ++ "\n"))

end NqcBlocks.Examples
