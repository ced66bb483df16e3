import NqcBlocks.Graph.Query

/-!
# Warning tables

The warnings of a run, a row each: the phase, the block, its kind and the warning.
-/

namespace NqcBlocks.Viewer

structure WarningRow where
  phase : String
  block : String
  kind : String
  warning : String
  deriving DecidableEq, Repr

/-- **A table of warnings**, and the graph whose blocks they are about. -/
structure WarningTable where
  graph : Option Graph := none
  rows : List WarningRow := []
  deriving Inhabited

namespace WarningTable

def reset (graph : Option Graph) : WarningTable := { graph }

def kindOf (t : WarningTable) (node : Option Handle) : String :=
  match t.graph, node with
  | some g, some h => ((g.get? h).map fun n => n.kind.tag).getD ""
  | _, _ => ""

def add (t : WarningTable) (phase : String) (node : Option Handle) (warning : String) :
    WarningTable :=
  { t with rows := t.rows ++
      [{ phase, block := (node.map Number.natText).getD "", kind := t.kindOf node, warning }] }

end WarningTable

end NqcBlocks.Viewer
