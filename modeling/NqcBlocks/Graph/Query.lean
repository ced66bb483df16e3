import NqcBlocks.Graph.Basic

/-!
# Looking around in a graph

What is plugged into a block, what follows it, what is below it and what it is part of. Walks along
the links of a graph are bounded by its number of cells, which no walk in a forest exceeds.
-/

namespace NqcBlocks

def Node.valueSlot (n : Node) (slot : String) : Except GraphError ValueSlot :=
  match n.valueSlots.get? slot with
  | some s => .ok s
  | none => .error (.noValueSlot n.kind slot)

def Node.statementSlot (n : Node) (slot : String) : Except GraphError (Option Handle) :=
  match n.statementSlots.get? slot with
  | some s => .ok s
  | none => .error (.noStatementSlot n.kind slot)

namespace Graph

def valueTarget (g : Graph) (h : Handle) (slot : String) : Except GraphError (Option Node) := do
  let n ← g.node h
  let s ← n.valueSlot slot
  return g.follow? s.target

def statementTarget (g : Graph) (h : Handle) (slot : String) :
    Except GraphError (Option Node) := do
  let n ← g.node h
  let target ← n.statementSlot slot
  return g.follow? target

def nextNode (g : Graph) (h : Handle) : Except GraphError (Option Node) := do
  return g.follow? (← g.node h).next

def parentOf (g : Graph) (h : Handle) : Except GraphError (Option Node) := do
  return g.follow? ((← g.node h).parent.map (·.owner))

def topBlocks (g : Graph) : List Node :=
  g.nodes.filter fun n => n.parent.isNone

def blocksOfKind (g : Graph) (kind : BlockKind) : List Node :=
  g.nodes.filter fun n => n.kind == kind

def chainWithin (g : Graph) : Nat → Option Handle → List Node
  | 0, _ => []
  | fuel + 1, target => match g.follow? target with
    | none => []
    | some n => n :: chainWithin g fuel n.next

def chainAt (g : Graph) (target : Option Handle) : List Node :=
  g.chainWithin g.reach target

def chain (g : Graph) (h : Handle) : Except GraphError (List Node) := do
  let n ← g.node h
  return n :: g.chainAt n.next

def childrenOf (g : Graph) (n : Node) : List Node := n.targets.filterMap g.get?

def lostTarget? (g : Graph) (n : Node) : Option Handle := n.targets.find? fun h => !g.contains h

def children (g : Graph) (h : Handle) : Except GraphError (List Node) := do
  let n ← g.node h
  match g.lostTarget? n with
  | some lost => throw (.lost lost)
  | none => return g.childrenOf n

def subtreeWithin (g : Graph) : Nat → Node → List Node
  | 0, n => [n]
  | fuel + 1, n => n :: (g.childrenOf n).flatMap (subtreeWithin g fuel)

def subtree (g : Graph) (n : Node) : List Node := g.subtreeWithin g.reach n

def descendants (g : Graph) (h : Handle) : Except GraphError (List Node) := do
  let below := g.subtree (← g.node h)
  match below.findSome? g.lostTarget? with
  | some lost => throw (.lost lost)
  | none => return below

def ancestryWithin (g : Graph) : Nat → Node → List Node
  | 0, n => [n]
  | fuel + 1, n => n :: match n.parent.bind fun p => g.get? p.owner with
    | none => []
    | some p => ancestryWithin g fuel p

def ancestry (g : Graph) (n : Node) : List Node := g.ancestryWithin g.reach n

def lostParent? (g : Graph) (n : Node) : Option Handle :=
  n.parent.bind fun p => if g.contains p.owner then none else some p.owner

def rootOf (g : Graph) (h : Handle) : Except GraphError Node := do
  let n ← g.node h
  let root := ((g.ancestry n).getLast?).getD n
  match g.lostParent? root with
  | some lost => throw (.lost lost)
  | none => return root

end Graph

end NqcBlocks
