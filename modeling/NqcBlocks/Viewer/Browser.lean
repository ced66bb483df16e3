import NqcBlocks.Files.Disk
import NqcBlocks.Viewer.Markup

/-!
# File browsers

The directories and the workspace files below where the viewer was started, as a tree to pick from.
Directories come first, each group in order of the names without regard to case; directories that hold
no workspaces of the user's are left out.
-/

namespace NqcBlocks.Viewer

open Files

/-- **A branch of a browser**: what it shows, the path it stands for, whether it is open, and what is
below it. -/
inductive Branch where
  | mk (label : Label) (path : Path) (expanded : Bool) (children : List Branch)
  deriving Inhabited

namespace Branch

def path : Branch → Path
  | .mk _ path .. => path

def toggle : Branch → Branch
  | .mk label path expanded children => .mk label path (!expanded) children

end Branch

def branchAt? : List Int → Branch → Option Branch
  | [], b => some b
  | i :: rest, .mk _ _ _ children => match children[position children.length i]? with
    | none => none
    | some b => branchAt? rest b

def toggleAt : List Int → Branch → Branch
  | [], b => b.toggle
  | i :: rest, .mk label path expanded children =>
    .mk label path expanded (children.modify (position children.length i) (toggleAt rest))

def hiddenDirectories : List String :=
  ["src", "outputs", "tests", "__pycache__", ".vscode", ".idea", ".git", ".github", ".venv",
   ".mypy_cache", ".pytest_cache", ".ruff_cache"]

def isWorkspaceName (name : String) : Bool :=
  Text.lower (Path.splitSuffix name).2 == ".json"

def isWorkspaceFile (d : Disk) (p : Path) : Bool :=
  match d.find p with
  | .ok (.file _) => isWorkspaceName p.name
  | _ => false

def browsed (d : Disk) (l : Location) : List (String × Entry) :=
  let (directories, files) := (d.list l).partition fun e => e.2 == .directory
  let inOrder (es : List (String × Entry)) :=
    es.mergeSort fun a b => !(Text.lower b.1 < Text.lower a.1)
  inOrder directories ++ inOrder files

def branchesWithin (d : Disk) : Nat → Location → Path → List Branch
  | 0, _, _ => []
  | fuel + 1, l, p => (browsed d l).filterMap fun (name, entry) =>
    let path : Path := { p with parts := p.parts ++ [name] }
    match entry with
    | .directory =>
      if hiddenDirectories.contains name then none
      else some (.mk (nameLabel name) path false (branchesWithin d fuel (l ++ [name]) path))
    | .file _ =>
      if isWorkspaceName name then some (.mk (nameLabel name) path false []) else none

/-- **The browser of a disk**, from the directory that relative paths start from. Every level takes an
entry of the disk, so their number bounds the levels. -/
def browse (d : Disk) : Branch :=
  let here : Path := {}
  .mk (nameLabel here.text) here true (branchesWithin d (d.entries.length + 1) d.cwd here)

end NqcBlocks.Viewer
