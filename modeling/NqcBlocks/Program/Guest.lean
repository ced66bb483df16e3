import NqcBlocks.Program.Compose

/-!
# Blocks in the context of a graph

Code can be asked for a single block, in the context of a graph that need not be the block's own: the
graph may have been started over since. The block is then a **guest**, and the block that has its handle
in the graph, if there is one, is its **host**. A guest brings its own fields, its own remark and the
defaults of its own sockets. What is plugged into a socket or a body is what is plugged into the one of
that name of the host; and wherever a guest is followed along its own links, for remarks, for variables
and for what comes next, they are followed in the graph.
-/

namespace NqcBlocks

open Nqc

/-- **A block in the context of a graph.** -/
structure Guest where
  node : Node
  own : BlockTree
  host : Option BlockTree
  following : List BlockTree
  catalog : Catalog

namespace Guest

def ofNode (g : Graph) (n : Node) : Guest :=
  { node := n, own := g.tree n, host := (g.get? n.handle).map g.tree
    following := g.treesWithin g.depth n.next, catalog := g.catalog }

def getHost (guest : Guest) : Except GraphError BlockTree :=
  match guest.host with
  | none => .error (.noBlock guest.node.handle)
  | some host => .ok host

def socket (guest : Guest) (slot : String) : Except GraphError (Option BlockTree) := do
  let host ← guest.getHost
  match Table.get? slot host.operands with
  | none => .error (.noValueSlot host.node.kind slot)
  | some occupant => .ok occupant

def slotCode (guest : Guest) (slot : String) (required : Order) : Gen Expr := do
  match (← Gen.ofGraph (guest.socket slot)).filter (·.node.enabled) with
  | none => match guest.node.valueSlots.get? slot with
    | none => throw (.defect (.missingSlot guest.node.handle slot))
    | some s => pure (.atom s.default)
  | some t =>
    let code ← t.valueCode
    if code.order.needsGrouping required then
      Gen.note t.node.handle (groupingNote code guest.node.kind slot)
    pure code

def bodyCode (guest : Guest) (slot : String) : Gen (List Stmt) := do
  let host ← Gen.ofGraph guest.getHost
  match Table.get? slot host.bodies with
  | none => throw (.graph (.noStatementSlot host.node.kind slot))
  | some chain => chainCode guest.catalog chain

def needsBound (guest : Guest) : Except GraphError Bool :=
  match (guest.catalog.spec? guest.node.kind).bind (·.countedBound) with
  | none => .ok false
  | some slot => (guest.socket slot).map (·.any fun b => guest.catalog.isComputed b.node)

def valueCode (guest : Guest) : Gen Expr := NqcBlocks.valueCode guest.node guest.slotCode

def code (guest : Guest) : Gen (List Stmt) :=
  if guest.node.enabled then do
    let comments ← guest.own.comments
    let statements ← statementCode guest.node (Gen.ofGraph guest.needsBound) guest.slotCode
      guest.bodyCode
    pure (withComments comments statements)
  else pure []

def chainCode (guest : Guest) : Gen (List Stmt) := do
  let first ← guest.code
  pure (first ++ (← NqcBlocks.chainCode guest.catalog guest.following))

def scanOwn (guest : Guest) : Gen (List Node) :=
  match guest.catalog.spec? guest.node.kind with
  | none => pure []
  | some spec => do
    registerVariableOf spec guest.node
    let loop ← Gen.ofGraph guest.needsBound
    let inner ← scanOperands guest.catalog guest.own.operands
    let nested ← scanBodies guest.catalog guest.own.bodies
    pure ((if loop then [guest.node] else []) ++ inner ++ nested)

def scanChain (guest : Guest) : Gen (List Node) := do
  let first ← if guest.node.enabled then guest.scanOwn else pure []
  pure (first ++ (← NqcBlocks.scanChain guest.catalog guest.following))

def prescan (guests : List Guest) : Gen Unit := do
  let loops ← guests.mapM scanChain
  allocateBounds loops.flatten

end Guest

end NqcBlocks
