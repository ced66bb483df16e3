import NqcBlocks.Files.Path
import NqcBlocks.Text.Quoted

/-!
# Disks

A tree of directories and files without links, as a list of what is at each place, together with the
directory that relative paths start from. Every operation answers the changed tree or the reason why
the system refuses it, and none touches a place other than the one it names:
-/

namespace NqcBlocks.Files

inductive Content where
  | text (s : String)
  | binary (bytes : List UInt8)
  deriving DecidableEq, Repr

def Content.reading? : Content → Option String
  | .text s => some (Text.joinNewlines s)
  | .binary _ => none

inductive Entry where
  | directory
  | file (content : Content)
  deriving DecidableEq, Repr

inductive FileError where
  | notFound
  | exists
  | notDirectory
  | isDirectory
  | nameTooLong
  | badName
  | unencodable
  | tooDeep
  deriving DecidableEq, Repr

def FileError.reason? : FileError → Option String
  | .notFound => some "[Errno 2] No such file or directory"
  | .exists => some "[Errno 17] File exists"
  | .notDirectory => some "[Errno 20] Not a directory"
  | .isDirectory => some "[Errno 21] Is a directory"
  | .nameTooLong => some "[Errno 36] File name too long"
  | _ => none

def FileError.message? (e : FileError) (p : Path) : Option String :=
  e.reason?.map (· ++ ": " ++ Text.quoted p.text)

/-- **A disk**: what is at each place, and the directory that relative paths start from. The root is a
directory and is not listed. -/
structure Disk where
  entries : List (Location × Entry) := []
  cwd : Location := []
  deriving DecidableEq, Repr

namespace Disk

def entry? (d : Disk) (l : Location) : Option Entry :=
  if l.isEmpty then some .directory else d.entries.lookup l

def put (d : Disk) (l : Location) (e : Entry) : Disk :=
  { d with entries := (d.entries.filter (·.1 != l)) ++ [(l, e)] }

def longestName : Nat := 255

def isTooLong (name : String) : Bool := longestName < name.utf8ByteSize

def longestPath : Nat := 4096

/-! ## Following paths -/

def walk (d : Disk) (here : Location) (found : Entry) :
    List String → Except FileError (Location × Entry)
  | [] => .ok (here, found)
  | part :: rest =>
    match found with
    | .file _ => .error .notDirectory
    | .directory =>
      if part != ".." && isTooLong part then .error .nameTooLong
      else
        let next := Path.step here part
        match d.entry? next with
        | none => .error .notFound
        | some e => walk d next e rest

def pathFault? (p : Path) : Option FileError :=
  if p.parts.any Text.hasUnnameable then some .unencodable
  else if p.parts.any (·.toList.contains '\x00') then some .badName
  else if longestPath ≤ p.text.utf8ByteSize then some .nameTooLong
  else none

def follow (d : Disk) (p : Path) (parts : List String) : Except FileError (Location × Entry) :=
  match d.entry? (p.start d.cwd) with
  | none => .error .notFound
  | some e => d.walk (p.start d.cwd) e parts

def locate (d : Disk) (p : Path) : Except FileError (Location × Entry) :=
  match pathFault? p with
  | some e => .error e
  | none => d.follow p p.parts

def target (d : Disk) (p : Path) : Except FileError Location :=
  match pathFault? p with
  | some e => .error e
  | none => match p.parts.getLast? with
    | none => .ok (p.start d.cwd)
    | some last => do
      match ← d.follow p p.parts.dropLast with
      | (_, .file _) => .error .notDirectory
      | (here, .directory) =>
        if last != ".." && isTooLong last then .error .nameTooLong
        else .ok (Path.step here last)

def find (d : Disk) (p : Path) : Except FileError Entry := (d.locate p).map (·.2)

def holds (d : Disk) (p : Path) : Except FileError Bool :=
  match d.find p with
  | .ok _ => .ok true
  | .error .nameTooLong => .error .nameTooLong
  | .error _ => .ok false

def isDirectory (d : Disk) (p : Path) : Bool :=
  match d.find p with
  | .ok .directory => true
  | _ => false

/-! ## Reading -/

def read (d : Disk) (p : Path) : Except FileError Content := do
  match ← d.find p with
  | .directory => .error .isDirectory
  | .file content => .ok content

inductive ReadError where
  | refused (cause : FileError)
  | notText
  deriving DecidableEq, Repr

def readText (d : Disk) (p : Path) : Except ReadError String :=
  match d.read p with
  | .error cause => .error (.refused cause)
  | .ok content => match content.reading? with
    | none => .error .notText
    | some s => .ok s

def list (d : Disk) (l : Location) : List (String × Entry) :=
  let here := d.entries.filterMap fun (k, e) =>
    if k.dropLast == l then k.getLast?.map (·, e) else none
  here.mergeSort fun a b => !(b.1 < a.1)

/-! ## Changing -/

def write (d : Disk) (p : Path) (text : String) : Disk × Except FileError Unit :=
  match d.target p with
  | .error e => (d, .error e)
  | .ok l => match d.entry? l with
    | some .directory => (d, .error .isDirectory)
    | _ =>
      if Text.hasHalf text then (d.put l (.file (.text "")), .error .unencodable)
      else (d.put l (.file (.text text)), .ok ())

def mostMade : Nat := 988

def makeSteps (d : Disk) (here : Location) : List String → Disk × Except FileError Unit
  | [] => (d, .ok ())
  | part :: rest =>
    if part == ".." then makeSteps d here.dropLast rest
    else if isTooLong part then (d, .error .nameTooLong)
    else
      let next := here ++ [part]
      match d.entry? next with
      | some .directory => makeSteps d next rest
      | some (.file _) => (d, .error (if rest.isEmpty then .exists else .notDirectory))
      | none => makeSteps (d.put next .directory) next rest

def missing (d : Disk) (here : Location) : List String → Nat
  | [] => 0
  | part :: rest =>
    let next := Path.step here part
    match d.entry? next with
    | none => if isTooLong part then 0 else rest.length + 1
    | some (.file _) => 0
    | some .directory => missing d next rest

def makeDirs (d : Disk) (p : Path) : Disk × Except FileError Unit :=
  match pathFault? p with
  | some e => (d, .error e)
  | none =>
    if mostMade < d.missing (p.start d.cwd) p.parts then (d, .error .tooDeep)
    else d.makeSteps (p.start d.cwd) p.parts

def removeBelow (d : Disk) (l : Location) : Disk :=
  { d with entries := d.entries.filter fun e => !(l.isPrefixOf e.1) }

def removeFile (d : Disk) (p : Path) : Except FileError Disk := do
  match ← d.locate p with
  | (_, .directory) => .error .isDirectory
  | (l, .file _) => .ok { d with entries := d.entries.filter (·.1 != l) }

/-! ## Whole disks -/

def plant (d : Disk) (l : Location) (content : Content) : Disk :=
  let above := (List.range l.length).map l.take
  let d := above.foldl (fun d dir => if (d.entry? dir).isSome then d else d.put dir .directory) d
  d.put l (.file content)

def below (d : Disk) (l : Location) : List (Location × Entry) :=
  d.entries.filterMap fun (k, e) =>
    if l.isPrefixOf k && k != l then some (k.drop l.length, e) else none

end Disk

end NqcBlocks.Files
