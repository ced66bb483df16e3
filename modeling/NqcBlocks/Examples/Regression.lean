import NqcBlocks.Diff.Unified
import NqcBlocks.Examples.Basic
import NqcBlocks.Examples.Clean

/-!
# Comparing with expected programs

Compiles every example and compares the program with the one kept beside it. A difference is shown by
the first lines of a unified difference.
-/

namespace NqcBlocks.Examples

open Files

def shownLines : Nat := 20

def compareTexts (expected actual : String) : Option String :=
  if expected == actual then none
  else
    let diff := Diff.unified "expected" "actual" (Text.linesOf expected) (Text.linesOf actual)
    let shown := "\n  ".intercalate (diff.take shownLines)
    if diff.isEmpty then some "Files differ in whitespace only."
    else some (if shownLines < diff.length then shown ++ "\n  ... (more lines)" else shown)

structure Verdict where
  lines : List String
  failure : Option String := none
  deriving DecidableEq, Repr

def compareProgram (d : Disk) (workspace program : Path) : Except RunError Verdict := do
  let expected := expectedPath workspace
  if ← holds d expected then
    match compareTexts (← readText d expected) (← readText d program) with
    | none => return { lines := ["OK   " ++ workspace.text] }
    | some diff =>
      return { lines := ["FAIL " ++ workspace.text ++ " -> " ++ program.text, "  " ++ diff]
               failure := some "output mismatch" }
  else return { lines := ["OK   " ++ workspace.text ++ " (no expected output)"] }

def checkOne (d : Disk) (workspace : Path) : Disk × Except RunError Verdict :=
  match cleanOutputs d outputRoot workspace.stem with
  | .error e => (d, .error e)
  | .ok d => match compile workspace d with
    | (d, .error e) => (d, .error e)
    | (d, .ok (.failed message)) =>
      (d, .ok { lines := ["FAIL " ++ workspace.text ++ ": " ++ message], failure := some message })
    | (d, .ok (.written program _)) => (d, compareProgram d workspace program)

def checkAll (d : Disk) : List Path → Disk × Except RunError (List (Path × Verdict))
  | [] => (d, .ok [])
  | workspace :: rest => match checkOne d workspace with
    | (d, .error e) => (d, .error e)
    | (d, .ok verdict) => match checkAll d rest with
      | (d, .error e) => (d, .error e)
      | (d, .ok verdicts) => (d, .ok ((workspace, verdict) :: verdicts))

def failureLine? : Path × Verdict → Option String
  | (workspace, verdict) => verdict.failure.map ("- " ++ workspace.text ++ ": " ++ ·)

def regression (d : Disk) : Disk × Except RunError Run :=
  let files := workspaces d
  if files.isEmpty then
    (d, .ok { lines := ["No files found under examples/workspaces/*.json"], exitCode := 2 })
  else match checkAll d files with
    | (d, .error e) => (d, .error e)
    | (d, .ok verdicts) =>
      let failures := verdicts.filterMap failureLine?
      let total := "\nTOTAL " ++ Number.natText files.length ++ "  FAILED "
        ++ Number.natText failures.length
      let summary := if failures.isEmpty then [] else "\nFailures:" :: failures
      (d, .ok
        { lines := verdicts.flatMap (·.2.lines) ++ total :: summary
          exitCode := if failures.isEmpty then 0 else 1 })

end NqcBlocks.Examples
