import NqcBlocks.CommandLine

/-!
# The program

The outer layer of the command line. It looks up on the real disk what a run can ask for, lets
`CommandLine.run` work on that, and carries out the changes.
-/

namespace NqcBlocks.Main

open Files

def visited (here : Location) : List String → List Location
  | [] => []
  | part :: rest => let next := Path.step here part; next :: visited next rest

def placesOf (cwd : Location) (p : Path) : List Location :=
  visited [] cwd ++ visited (p.start cwd) p.parts

def lookUp (l : Location) : IO (Option Entry) := do
  try
    let bytes ← IO.FS.readBinFile (Path.ofLocation l).text
    return some (.file (match String.fromUTF8? bytes with
      | some s => .text s
      | none => .binary bytes.toList))
  catch
    | .noFileOrDirectory .. => return none
    | _ => return some .directory

def recordPath (d : Disk) (p : Path) : IO Disk :=
  (placesOf d.cwd p).foldlM (fun d l => do
    if l.isEmpty then return d
    match ← lookUp l with
    | none => return d
    | some e => return d.put l e) d

def carryOut (before after : Disk) : IO Unit := do
  for (l, e) in after.entries do
    if before.entry? l != some e then
      let path := (Path.ofLocation l).text
      match e with
      | .directory => IO.FS.createDirAll path
      | .file (.text s) => IO.FS.writeFile path s
      | .file (.binary bytes) => IO.FS.writeBinFile path ⟨bytes.toArray⟩

def pathsOf (d : Disk) (args : List String) : List Path :=
  let workspace := (CommandLine.workspacePath? (args.head?.getD CommandLine.defaultWorkspace)).toList
  let config := (args[1]?.map Path.ofString).toList
  let outputs := workspace.flatMap fun input =>
    match Config.load d config.head? with
    | .error _ => []
    | .ok c => [{ input, outputRoot := c.outputRoot, config := some c : Job }.file]
  config ++ workspace ++ outputs

end NqcBlocks.Main

open NqcBlocks NqcBlocks.Main NqcBlocks.Files in
def main (args : List String) : IO UInt32 := do
  let cwd := (Path.ofString (← IO.currentDir).toString).parts
  let mut disk : Disk := { cwd }
  -- The configuration says where the outputs are, so the paths are looked up twice.
  for _ in [0, 1] do
    for p in pathsOf disk args do
      disk ← recordPath disk p
  match CommandLine.run disk args with
  | (after, .error e) =>
    carryOut disk after
    IO.eprintln (e.message?.getD "The run was stopped by an error.")
    return 1
  | (after, .ok r) =>
    carryOut disk after
    IO.print r.output
    return r.exitCode.toUInt32
