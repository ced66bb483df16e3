import NqcBlocks.Files.Disk
import NqcBlocks.Json.Reader
import NqcBlocks.Session
import NqcBlocks.Workspace.Load

/-!
# Workspace files

Reading a workspace from a file: finding it, reading it as a text, reading the text as a document and
building the blocks.
-/

namespace NqcBlocks

open Files

inductive WorkspaceError where
  | unreadable (path : Path) (cause : FileError)
  | notText
  | badDocument (path : Path) (cause : Json.LocatedFault)
  | overLimit (what : Json.Limit)
  | load (cause : LoadError)
  deriving Repr

def WorkspaceError.message? : WorkspaceError → Option String
  | .unreadable path cause =>
    (cause.message? path).map ("Cannot read workspace " ++ path.text ++ ": " ++ ·)
  | .notText => none
  | .badDocument path cause =>
    some ("Workspace " ++ path.text ++ " is not valid JSON: " ++ cause.message)
  | .overLimit _ => none
  | .load cause => cause.message?

def Workspace.ofFile (d : Disk) (path : Path) : Except WorkspaceError Graph :=
  match d.readText path with
  | .error (.refused cause) => .error (.unreadable path cause)
  | .error .notText => .error .notText
  | .ok text => match Json.parse text with
    | .error (.fault cause) => .error (.badDocument path cause)
    | .error (.limit what) => .error (.overLimit what)
    | .ok document => (toGraph document).mapError .load

def Session.loadFile (s : Session) (d : Disk) (path : Path) :
    Session × Except WorkspaceError Unit :=
  let s := { s.reset with fileName := path.stem }
  match Workspace.ofFile d path with
  | .error e => (s, .error e)
  | .ok g => (s.withGraph g, .ok ())

end NqcBlocks
