import NqcBlocks.Text.Lines

/-!
# Paths

A path names a place by a list of steps, from the root or from where the reader stands. Empty steps
and the step `.` say nothing and are dropped when a path is read; the step `..` is kept, since what it
means depends on the directories that are there. `Path.resolve` reads it all the same by the names
alone, which is right where no name stands for another place.
-/

namespace NqcBlocks.Files

inductive Anchor where
  | here
  | root
  | doubleRoot
  deriving DecidableEq, Repr

def Anchor.text : Anchor → String
  | .here => ""
  | .root => "/"
  | .doubleRoot => "//"

/-- **A path**: where it starts and the steps from there. -/
structure Path where
  anchor : Anchor := .here
  parts : List String := []
  deriving DecidableEq, Repr, Inhabited

/-- A place as the names of the directories that lead to it from the root, and its own name. -/
abbrev Location := List String

namespace Path

def anchorOf (cs : List Char) : Anchor :=
  match (cs.takeWhile (· == '/')).length with
  | 0 => .here
  | 2 => .doubleRoot
  | _ => .root

def isStep (part : String) : Bool := part != "" && part != "."

def ofString (s : String) : Path :=
  { anchor := anchorOf s.toList, parts := (Text.splitOnChar s '/').filter isStep }

def isAbsolute (p : Path) : Bool := p.anchor != .here

def text (p : Path) : String :=
  if p.parts.isEmpty && !p.isAbsolute then "." else p.anchor.text ++ "/".intercalate p.parts

def append (p q : Path) : Path :=
  if q.isAbsolute then q else { p with parts := p.parts ++ q.parts }

def child (p : Path) (name : String) : Path := p.append (ofString name)

def parent (p : Path) : Path := { p with parts := p.parts.dropLast }

def name (p : Path) : String := p.parts.getLast?.getD ""

def splitSuffix (name : String) : String × String :=
  let cs := name.toList
  let ending := (cs.reverse.takeWhile (· != '.')).reverse
  let before := cs.length - ending.length
  if 1 < before && !ending.isEmpty then
    (String.ofList (cs.take (before - 1)), String.ofList (cs.drop (before - 1)))
  else (name, "")

def stem (p : Path) : String := (splitSuffix p.name).1

def suffix (p : Path) : String := (splitSuffix p.name).2

def withName? (p : Path) (name : String) : Option Path :=
  if p.name.isEmpty then none else some (p.parent.child name)

def withSuffix (p : Path) (suffix : String) : Path := p.parent.child (p.stem ++ suffix)

def step (here : Location) (part : String) : Location :=
  if part == ".." then here.dropLast else here ++ [part]

def start (here : Location) (p : Path) : Location := if p.isAbsolute then [] else here

def resolve (here : Location) (p : Path) : Location := p.parts.foldl step (p.start here)

def ofLocation (l : Location) : Path := { anchor := .root, parts := l }

end Path

end NqcBlocks.Files
