import NqcBlocks.Output

/-!
# The command line

`nqc [workspace[.json]] [config.json]` compiles a workspace file as its configuration says, prints one
message and tells success from failure by its exit code.
-/

namespace NqcBlocks

open Files

namespace CommandLine

def defaultWorkspace : String := "./examples/workspaces/line_follower"

def workspacePath? (name : String) : Option Path :=
  let p := Path.ofString name
  if p.suffix == ".json" then some p else p.withName? (p.name ++ ".json")

structure Result where
  ok : Bool
  output : String
  deriving DecidableEq, Repr

def Result.failure (reason : String) : Result :=
  { ok := false, output := "Code generation failed. " ++ reason ++ "\n" }

def Result.exitCode (r : Result) : Nat := if r.ok then 0 else 1

def ofConfigError (e : ConfigError) : Except RunError Result :=
  match e.message? with
  | some message => .ok (.failure message)
  | none => match e.fault with
    | .unreadable (.refused cause) => .error (.refused cause)
    | .overLimit what => .error (.overLimit what)
    | .hugeIndent => .error .hugeIndent
    | _ => .error .notText

def compile (d : Disk) (workspace : String := defaultWorkspace) (config : Option String := none) :
    Disk × Except RunError Result :=
  match workspacePath? workspace with
  | none => (d, .error .unnamed)
  | some input => match Config.load d (config.map Path.ofString) with
    | .error e => (d, ofConfigError e)
    | .ok c =>
      match Job.run { input, outputRoot := c.outputRoot, config := some c } d with
      | (d, .error e) => (d, .error e)
      | (d, .ok (.failed message)) => (d, .ok (.failure message))
      | (d, .ok (.written _ message)) => (d, .ok { ok := true, output := message ++ "\n" })

def run (d : Disk) : List String → Disk × Except RunError Result
  | [] => compile d
  | [workspace] => compile d workspace
  | workspace :: config :: _ => compile d workspace (some config)

end CommandLine

end NqcBlocks
