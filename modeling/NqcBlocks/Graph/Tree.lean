import NqcBlocks.Graph.Query

/-!
# Blocks as trees

The part of a graph that generating code looks at, unfolded: a block with the values in its sockets
and the chains of statements in its bodies. Everything that is computed from a program follows the
structure of these trees. Only the unfolding itself walks along the links of a graph, and it is bounded
by the number of cells; in a forest the bound is never reached.
-/

namespace NqcBlocks

/-- **A block with everything plugged into it**, except what comes after it. -/
inductive BlockTree where
  | mk (node : Node) (attached : Bool) (operands : List (String × Option BlockTree))
      (bodies : List (String × List BlockTree))
  deriving Inhabited

abbrev Operands := List (String × Option BlockTree)

abbrev Bodies := List (String × List BlockTree)

namespace BlockTree

def node : BlockTree → Node
  | .mk node .. => node

def attached : BlockTree → Bool
  | .mk _ attached .. => attached

def operands : BlockTree → Operands
  | .mk _ _ operands _ => operands

def bodies : BlockTree → Bodies
  | .mk _ _ _ bodies => bodies

end BlockTree

namespace Graph

mutual
def treeWithin (g : Graph) : Nat → Node → BlockTree
  | 0, n => .mk n (g.contains n.handle) [] []
  | fuel + 1, n => .mk n (g.contains n.handle)
      (n.valueSlots.map fun (slot, s) => (slot, (g.follow? s.target).map (treeWithin g fuel)))
      (n.statementSlots.map fun (slot, target) => (slot, treesWithin g fuel target))
def treesWithin (g : Graph) : Nat → Option Handle → List BlockTree
  | 0, _ => []
  | fuel + 1, target => match g.follow? target with
    | none => []
    | some n => treeWithin g fuel n :: treesWithin g fuel n.next
end

def depth (g : Graph) : Nat := 2 * g.cells.size + 2

def tree (g : Graph) (n : Node) : BlockTree := g.treeWithin g.depth n

def chainTrees (g : Graph) (n : Node) : List BlockTree :=
  g.tree n :: g.treesWithin g.depth n.next

def headTrees (g : Graph) (h : Handle) : List BlockTree :=
  match g.lastState? h with
  | none => []
  | some n => g.chainTrees n

end Graph

end NqcBlocks
