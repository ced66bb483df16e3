import NqcBlocks.Files.Disk
import NqcBlocks.Files.Name
import NqcBlocks.Json.Reader
import NqcBlocks.Program.Context

/-!
# Configurations

A configuration is a document that names the program, says where programs are written and how they are
laid out. Every member is optional. Where a document is wrong in several places the first one counts,
in the order in which the members are checked below.
-/

namespace NqcBlocks

open Files

inductive ConfigFault where
  | notFound
  | badDocument (cause : Json.LocatedFault)
  | overLimit (what : Json.Limit)
  | notAnObject
  | projectName
  | outputRoot
  | generator
  | indent
  | reservedNames
  | preamble
  | unreadable (cause : Disk.ReadError)
  | hugeIndent
  deriving Repr

structure ConfigError where
  path : Path
  fault : ConfigFault
  deriving Repr

def ConfigFault.complaint? : ConfigFault → Option String
  | .notAnObject => some "top level must be an object"
  | .projectName => some "project_name must be a string"
  | .outputRoot => some "output_root must be a string"
  | .generator => some "generator must be an object"
  | .indent => some "indent must be spaces/tabs or a number of spaces"
  | .reservedNames => some "reserved_names must be one of reject, rename"
  | .preamble => some "preamble must be a string"
  | _ => none

def ConfigError.message? (e : ConfigError) : Option String :=
  match e.fault with
  | .notFound => some ("CONFIG_NOT_FOUND: " ++ e.path.text)
  | .badDocument cause => some ("CONFIG_INVALID_JSON: " ++ e.path.text ++ ": " ++ cause.message)
  | fault => fault.complaint?.map ("CONFIG_INVALID: " ++ e.path.text ++ ": " ++ ·)

/-- **A configuration.** -/
structure Config where
  path : Option Path := none
  raw : Table Json := []
  projectName : String := defaultProjectName
  outputRoot : Path := { parts := ["outputs"] }
  options : Options := {}

namespace Config

def programFileStem (c : Config) : String := cleanFileName c.projectName

def programNameFor (c : Config) (workspace : Path) : String :=
  if c.raw.contains "project_name" then c.programFileStem else cleanFileName workspace.stem

def textMember (members : Table Json) (name default : String) (fault : ConfigFault) :
    Except ConfigFault String :=
  match members.get? name with
  | none => .ok default
  | some (.text s) => .ok s
  | some _ => .error fault

def longestText : Nat := twoPow 63

def readIndent (members : Table Json) : Except ConfigFault String :=
  match members.get? "indent" with
  | none => .ok "  "
  | some (.number (.int n)) =>
    if (longestText : Int) ≤ n ∨ n < -(longestText : Int) then .error .hugeIndent
    else .ok ("".pushn ' ' n.toNat)
  | some (.text s) => if s.toList.all (fun c => c == ' ' || c == '\t') then .ok s else .error .indent
  | some _ => .error .indent

def readPolicy (members : Table Json) : Except ConfigFault ReservedPolicy :=
  match members.get? "reserved_names" with
  | none => .ok .reject
  | some value => match value.text?.bind ReservedPolicy.ofName? with
    | none => .error .reservedNames
    | some policy => .ok policy

def readOptions (members : Table Json) : Except ConfigFault Options :=
  match members.get? "generator" with
  | none => .ok {}
  | some (.object generator) => do
    let indent ← readIndent generator
    let policy ← readPolicy generator
    let preamble ← textMember generator "preamble" "" .preamble
    return { indent, policy, preamble }
  | some _ => .error .generator

def ofDocument (path : Path) : Json → Except ConfigFault Config
  | .object raw => do
    let projectName ← textMember raw "project_name" defaultProjectName .projectName
    let root ← textMember raw "output_root" "outputs" .outputRoot
    let options ← readOptions raw
    return { path := some path, raw, projectName, outputRoot := path.parent.child root, options }
  | _ => .error .notAnObject

def read (d : Disk) (path : Path) : Except ConfigError Config :=
  let outcome : Except ConfigFault Config := do
    match d.holds path with
    | .error cause => throw (.unreadable (.refused cause))
    | .ok false => throw .notFound
    | .ok true =>
      match d.readText path with
      | .error cause => throw (.unreadable cause)
      | .ok text => match Json.parse text with
        | .error (.fault cause) => throw (.badDocument cause)
        | .error (.limit what) => throw (.overLimit what)
        | .ok document => ofDocument path document
  outcome.mapError (⟨path, ·⟩)

def load (d : Disk) : Option Path → Except ConfigError Config
  | none => .ok {}
  | some path => read d path

end Config

end NqcBlocks
