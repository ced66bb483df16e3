import NqcBlocks.Graph.Tree
import NqcBlocks.Program.Context

/-!
# Collecting variables

NQC declares the variables of a task before its statements. Before any code is written, the blocks of
the task are therefore gone through once: every variable they use is added to the open scope, and
after all of them the variables of those loops whose count has to be computed. Disabled blocks count
for nothing, but the blocks after them do.
-/

namespace NqcBlocks

def Catalog.isComputed (catalog : Catalog) (bound : Node) : Bool :=
  bound.enabled && !(catalog.spec? bound.kind).any (·.plainOperand)

/-- **Whether a loop's count has to be computed first**: its socket holds an enabled value that is
neither a number nor a variable. -/
def needsBound (catalog : Catalog) (t : BlockTree) : Except GraphError Bool :=
  match (catalog.spec? t.node.kind).bind (·.countedBound) with
  | none => .ok false
  | some slot =>
    if !t.attached then .error (.noBlock t.node.handle)
    else match Table.get? slot t.operands with
      | none => .error (.noValueSlot t.node.kind slot)
      | some bound => .ok (bound.any fun b => catalog.isComputed b.node)

def registerVariableOf (spec : BlockSpec) (n : Node) : Gen Unit := do
  match spec.variableField with
  | none => pure ()
  | some field =>
    if (← get).scope.isNone then throw (.defect .noScope)
    match n.fields.get? field with
    | none => throw (.defect (.missingField n.handle field))
    | some value => discard (Gen.useValue value)

mutual
def scanTree (catalog : Catalog) : BlockTree → Gen (List Node)
  | .mk n attached operands bodies =>
    match catalog.spec? n.kind with
    | none => pure []
    | some spec => do
      registerVariableOf spec n
      let own ← Gen.ofGraph (needsBound catalog (.mk n attached operands bodies))
      let inner ← scanOperands catalog operands
      let nested ← scanBodies catalog bodies
      pure ((if own then [n] else []) ++ inner ++ nested)
def scanOperands (catalog : Catalog) : Operands → Gen (List Node)
  | [] => pure []
  | (_, none) :: rest => scanOperands catalog rest
  | (_, some t) :: rest => do
    let first ← if t.node.enabled then scanTree catalog t else pure []
    pure (first ++ (← scanOperands catalog rest))
def scanBodies (catalog : Catalog) : Bodies → Gen (List Node)
  | [] => pure []
  | (_, chain) :: rest => do
    let first ← scanChain catalog chain
    pure (first ++ (← scanBodies catalog rest))
def scanChain (catalog : Catalog) : List BlockTree → Gen (List Node)
  | [] => pure []
  | t :: rest => do
    let first ← if t.node.enabled then scanTree catalog t else pure []
    pure (first ++ (← scanChain catalog rest))
end

def allocateBounds : List Node → Gen Unit
  | [] => pure ()
  | loop :: rest => do
    if (← get).scope.isNone then throw (.defect .noScope)
    discard (Gen.auxiliary loop)
    allocateBounds rest

def prescan (catalog : Catalog) (chains : List (List BlockTree)) : Gen Unit := do
  let loops ← chains.mapM (scanChain catalog)
  allocateBounds loops.flatten

end NqcBlocks
