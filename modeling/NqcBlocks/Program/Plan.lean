import NqcBlocks.Program.Context

/-!
# The plan of a program

The blocks that stand on their own are sorted into what a program is made of: tasks, in order of
creation, and loose blocks. Disabled blocks are left out without a word; a further main task, a task
without a name and a task whose name is already taken are left out with a reason.
-/

namespace NqcBlocks

structure Plan where
  tasks : List Handle := []
  loose : List Handle := []
  hasMain : Bool := false
  skipped : List (Handle × String) := []
  deriving DecidableEq, Repr, Inhabited

namespace Plan

def skip (p : Plan) (h : Handle) (reason : String) : Plan :=
  { p with skipped := p.skipped ++ [(h, reason)] }

def addTask (p : Plan) (h : Handle) : Plan := { p with tasks := p.tasks ++ [h] }

def nameOf? (n : Node) : Option Json := (n.fields.get? "NAME").bind Json.truthy?

def place (g : Graph) (p : Plan) (seen : List Name) (n : Node) : Gen (Plan × List Name) :=
  if !n.enabled then pure (p, seen)
  else match (g.spec? n).map BlockSpec.role with
    | some .entry =>
      if p.hasMain then
        pure (p.skip n.handle "Only the first main task is used; this one is skipped.", seen)
      else pure ({ p.addTask n.handle with hasMain := true }, seen)
    | some .subprogram => match nameOf? n with
      | none => pure (p.skip n.handle "Task without a name is skipped.", seen)
      | some value => do
        let name ← Gen.resolveValue .task value
        if name.isIn seen then
          pure (p.skip n.handle ("Task \"" ++ name.plain
            ++ "\" is defined more than once; later copies are skipped."), seen)
        else pure (p.addTask n.handle, name :: seen)
    | _ => pure ({ p with loose := p.loose ++ [n.handle] }, seen)

def placeAll (g : Graph) : Plan → List Name → List Node → Gen Plan
  | p, _, [] => pure p
  | p, seen, n :: rest => do
    let (p, seen) ← place g p seen n
    placeAll g p seen rest

def ofGraph (g : Graph) : Gen Plan := placeAll g {} [] g.topBlocks

end Plan

end NqcBlocks
