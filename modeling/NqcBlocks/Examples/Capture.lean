import NqcBlocks.Examples.Basic

/-!
# Capturing expected programs

Compiles every example and keeps the program beside it, as what later runs are compared with.
-/

namespace NqcBlocks.Examples

open Files

def differsFromKept (d : Disk) (expected : Path) (code : String) : Except RunError Bool := do
  if ← holds d expected then return (← readText d expected) != code else return true

def keep (d : Disk) (workspace program : Path) : Disk × Except RunError Bool :=
  let expected := expectedPath workspace
  match readText d program with
  | .error e => (d, .error e)
  | .ok code => match differsFromKept d expected code with
    | .error e => (d, .error e)
    | .ok changed => match d.write expected code with
      | (d, .error e) => (d, .error (.refused e))
      | (d, .ok ()) => (d, .ok changed)

def captureOne (d : Disk) (workspace : Path) : Disk × Except RunError (String × Bool) :=
  match compile workspace d with
  | (d, .error e) => (d, .error e)
  | (d, .ok (.failed message)) =>
    (d, .ok ("[FAIL] " ++ workspace.stem ++ ": " ++ message, false))
  | (d, .ok (.written program _)) => match keep d workspace program with
    | (d, .error e) => (d, .error e)
    | (d, .ok changed) =>
      (d, .ok ("[OK] " ++ workspace.stem ++ (if changed then " (updated)" else ""), true))

def captureAll (d : Disk) : List Path → Disk × Except RunError (List (String × Bool))
  | [] => (d, .ok [])
  | workspace :: rest => match captureOne d workspace with
    | (d, .error e) => (d, .error e)
    | (d, .ok line) => match captureAll d rest with
      | (d, .error e) => (d, .error e)
      | (d, .ok lines) => (d, .ok (line :: lines))

def capture (d : Disk) : Disk × Except RunError Run :=
  let files := workspaces d
  match captureAll d files with
  | (d, .error e) => (d, .error e)
  | (d, .ok lines) =>
    let failed := lines.countP fun l => !l.2
    let captured := lines.length - failed
    (d, .ok
      { lines :=
          ("Capturing expected programs from " ++ Number.natText files.length ++ " workspaces...\n")
          :: lines.map (·.1)
          ++ ["\n[DONE] Captured " ++ Number.natText captured ++ " programs",
              "[FAIL] Failed " ++ Number.natText failed ++ " workspaces"]
        exitCode := if failed = 0 then 0 else 1 })

end NqcBlocks.Examples
