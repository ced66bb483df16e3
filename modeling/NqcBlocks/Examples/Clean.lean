import NqcBlocks.Output

/-!
# Cleaning outputs

Before a program is compiled anew its old outputs are removed, with all that is in their directory.
Only what lies strictly below the directory of the outputs is ever removed: places are compared after
`..` has been read away, and a name that leads anywhere else ends the run.
-/

namespace NqcBlocks.Examples

open Files

def isBelow (root place : Location) : Bool := root.isPrefixOf place && root != place

def outputPlace (here : Location) (root : Path) (name : String) : Location :=
  ((Path.ofLocation (root.resolve here)).child name).resolve here

def nameFault? (p : Path) : Option FileError :=
  match Disk.pathFault? p with
  | some .nameTooLong => none
  | fault => fault

def cleanOutputs (d : Disk) (root : Path) (name : String) : Except RunError Disk :=
  let place := outputPlace d.cwd root name
  match (nameFault? root).or (nameFault? (Path.ofString name)) with
  | some fault => .error (.refused fault)
  | none =>
    if isBelow (root.resolve d.cwd) place then
      match d.find (Path.ofLocation place) with
      | .ok .directory => .ok (d.removeBelow place)
      | .ok (.file _) => .error (.refused .notDirectory)
      | .error .nameTooLong => .error (.refused .nameTooLong)
      | .error _ => .ok d
    else .error (.outside place)

end NqcBlocks.Examples
