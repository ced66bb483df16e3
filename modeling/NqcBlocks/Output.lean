import NqcBlocks.Compilation
import NqcBlocks.Config
import NqcBlocks.Workspace.File

/-!
# Program files

Compiling a workspace file writes one file, named after the program, into a directory of its own under
the output root. Nothing is written unless the whole program could be generated; a program that could
not be is reported in words. A `RunError` is what is not reported but ends the run.
-/

namespace NqcBlocks

open Files

inductive RunError where
  | refused (cause : FileError)
  | notText
  | overLimit (what : Json.Limit)
  | misuse (what : Misuse)
  | defect (what : Defect)
  | unnamed
  | hugeIndent
  | outside (place : Location)
  deriving Repr

def RunError.message? : RunError → Option String
  | .outside place =>
    some ("Refusing to delete outside output_root: " ++ (Path.ofLocation place).text)
  | _ => none

inductive Outcome where
  | failed (message : String)
  | written (path : Path) (message : String)
  deriving DecidableEq, Repr

namespace Outcome

def message : Outcome → String
  | .failed message => message
  | .written _ message => message

def path? : Outcome → Option Path
  | .failed _ => none
  | .written path _ => some path

end Outcome

/-- What to compile: a workspace file, the name of the program where it is not that of the
configuration or of the file, where programs are written, and the configuration. -/
structure Job where
  input : Path
  programName : Option String := none
  outputRoot : Path := { parts := ["outputs"] }
  config : Option Config := none

namespace Job

def name (j : Job) : String :=
  cleanFileName (j.programName.getD (match j.config with
    | none => j.input.stem
    | some c => c.programNameFor j.input))

def options (j : Job) : Options := (j.config.map Config.options).getD {}

def directory (j : Job) : Path := j.outputRoot.child j.name

def file (j : Job) : Path := j.directory.child (j.name ++ ".nqc")

end Job

def warningLine : Warning → String
  | (none, text) => "\n  " ++ text
  | (some node, text) => "\n  block " ++ Number.natText node ++ ": " ++ text

def completion (path : Path) (warnings : List Warning) : String :=
  let done := "Code generation completed. Output written to " ++ path.text ++ "."
  if warnings.isEmpty then done
  else done ++ " " ++ Number.natText warnings.length ++ " warning(s):"
    ++ String.join (warnings.map warningLine)

def writeProgram (d : Disk) (directory file : Path) (code : String) :
    Disk × Except FileError Unit :=
  match d.makeDirs directory with
  | (d, .error e) => (d, .error e)
  | (d, .ok ()) => d.write file code

def WorkspaceError.outcome (e : WorkspaceError) : Except RunError Outcome :=
  match e.message? with
  | some message => .ok (.failed message)
  | none => match e with
    | .unreadable _ cause => .error (.refused cause)
    | .overLimit what => .error (.overLimit what)
    | .load (.misuse what) => .error (.misuse what)
    | _ => .error .notText

def GenError.outcome (e : GenError) : Except RunError Outcome :=
  match e with
  | .defect what => .error (.defect what)
  | e => .ok (.failed (e.message?.getD ""))

def Job.run (j : Job) (d : Disk) : Disk × Except RunError Outcome :=
  match Workspace.ofFile d j.input with
  | .error e => (d, e.outcome)
  | .ok g =>
    let c := Compilation.ofGraph g j.options
    match c.error with
    | some e => (d, e.outcome)
    | none => match writeProgram d j.directory j.file c.code with
      | (d, .error e) => (d, .error (.refused e))
      | (d, .ok ()) => (d, .ok (.written j.file (completion j.file c.warnings)))

end NqcBlocks
