import NqcBlocks.Proofs.Graph.Tree
import NqcBlocks.Proofs.Program.Scope

/-!
# What blocks stand for

The code that a tree of blocks stands for, as a function of the tree and of how names are spelled, with
no context that changes along the way: `BlockTree.value` for values, `BlockTree.stmts` for statements,
and the notes that are made about them. The generator computes it, which the modules after this one
prove; here it is only said. An empty socket, or one with a disabled value, stands for its default; a
disabled statement stands for nothing, with everything plugged into it.
-/

namespace NqcBlocks

open Nqc

structure Spelling where
  name : NameUse → String → String
  bound : Handle → String

def Spelling.ofScope (r : Resolver) (s : Scope) : Spelling :=
  ⟨r.spell, fun loop => (s.auxiliaryName? loop).getD ""⟩

/-! ## Names -/

def BlockKind.nameField? : BlockKind → Option (String × NameUse)
  | .variableSet | .variableGet => some ("VAR", .variable)
  | .startTask | .stopTask => some ("NAME", .task)
  | _ => none

def Node.names (n : Node) : List ReservedNameError :=
  (n.kind.nameField?.map fun (field, use) => ⟨n.text field, use⟩).toList

def Node.variables (n : Node) : List String :=
  (n.names.filter fun u => u.use == .variable).map (·.name)

def namesOf (parts : List BlockTree) : Set ReservedNameError :=
  { u | ∃ p ∈ parts, u ∈ p.node.names }

/-! ## Remarks -/

def Node.remark (n : Node) : String :=
  match n.comment.bind Json.truthy? with
  | some (.text s) => NqcBlocks.commentLines s
  | _ => ""

mutual
def BlockTree.remarks : BlockTree → String
  | .mk n _ operands _ => n.remark ++ operandRemarks operands
def operandRemarks : Operands → String
  | [] => ""
  | (_, none) :: rest => operandRemarks rest
  | (_, some t) :: rest => t.remarks ++ operandRemarks rest
end

/-! ## Values -/

structure Reading where
  node : Handle
  expr : Expr
  notes : List CodeNote

def slotExpr (n : Node) (readings : List (String × Option Reading)) (slot : String) : Expr :=
  match Table.get? slot readings with
  | some (some v) => v.expr
  | _ => .atom (((n.valueSlots.get? slot).map (·.default)).getD "")

def slotNotes (n : Node) (readings : List (String × Option Reading)) (slot : String)
    (required : Order) : List CodeNote :=
  match Table.get? slot readings with
  | some (some v) => v.notes ++
    if v.expr.order.needsGrouping required then [⟨v.node, groupingNote v.expr n.kind slot⟩] else []
  | _ => []

def valueExpr (σ : Spelling) (n : Node) (value : String → Expr) : Expr :=
  match n.kind with
  | .number | .percent => numberCode (n.number "NUM")
  | .boolean => .atom (if n.text "BOOL" == "TRUE" then "true" else "false")
  | .touchValue | .lightValue | .rotationValue | .temperatureValue => .atom (n.text "SENSOR")
  | .variableGet => .variable (σ.name .variable (n.text "VAR"))
  | .arithmetic => .binary (arithmeticOperator (n.text "OP")) (value "A") (value "B")
  | .compare => .binary (compareOperator (n.text "OP")) (value "A") (value "B")
  | .logic => .binary (logicOperator (n.text "OP")) (value "A") (value "B")
  | .negate => .negate (value "BOOL")
  | .group => .group (value "VALUE")
  | _ => .atom ""

def binaryNotes (op : Operator) (notes : String → Order → List CodeNote) : List CodeNote :=
  notes "A" op.order ++ notes "B" op.order

def valueNotes (n : Node) (notes : String → Order → List CodeNote) : List CodeNote :=
  match n.kind with
  | .arithmetic => binaryNotes (arithmeticOperator (n.text "OP")) notes
  | .compare => binaryNotes (compareOperator (n.text "OP")) notes
  | .logic => binaryNotes (logicOperator (n.text "OP")) notes
  | .negate => notes "BOOL" .none
  | .group => notes "VALUE" .none
  | _ => []

mutual
def BlockTree.reading (σ : Spelling) : BlockTree → Reading
  | .mk n _ operands _ =>
    { node := n.handle
      expr := valueExpr σ n (slotExpr n (readings σ operands))
      notes := valueNotes n (slotNotes n (readings σ operands)) }
def readings (σ : Spelling) : Operands → List (String × Option Reading)
  | [] => []
  | (slot, none) :: rest => (slot, none) :: readings σ rest
  | (slot, some t) :: rest =>
    (slot, if t.node.enabled then some (t.reading σ) else none) :: readings σ rest
end

/-! ## Statements -/

def BlockTree.needsCounter (t : BlockTree) : Bool :=
  t.node.kind == .repeatTimes && match Table.get? "TIMES" t.operands with
    | some (some bound) => Catalog.builtin.isComputed bound.node
    | _ => false

def arms (value : String → Expr) (body : String → List Stmt) (count : Nat) :
    List (Expr × List Stmt) :=
  (List.range count).map fun i =>
    (value ("IF" ++ Number.natText i), body ("DO" ++ Number.natText i))

/-- **The statements of a block**, given what is in its sockets and bodies and whether its count has to
be computed first. -/
def nodeStmts (σ : Spelling) (n : Node) (counter : Bool) (value : String → Expr)
    (body : String → List Stmt) : List Stmt :=
  match n.kind with
  | .motorOnWithPower =>
    [setPower (n.text "MOTOR") (value "POWER"), motorOn (n.text "MOTOR") (n.text "DIRECTION")]
  | .motorOn => [motorOn (n.text "MOTOR") (n.text "DIRECTION")]
  | .motorOff => [constantCall "Off" [n.text "MOTOR"]]
  | .setPower => [setPower (n.text "MOTOR") (value "POWER")]
  | .setDirection =>
    [constantCall "SetDirection"
      [n.text "MOTOR", if n.text "DIRECTION" == "FWD" then "OUT_FWD" else "OUT_REV"]]
  | .playSound => [constantCall "PlaySound" [n.text "SOUND"]]
  | .touchSensorSetup =>
    sensorSetup (n.text "SENSOR") "SENSOR_TYPE_TOUCH" "SENSOR_MODE_BOOL" false
  | .lightSensorSetup =>
    sensorSetup (n.text "SENSOR") "SENSOR_TYPE_LIGHT" "SENSOR_MODE_PERCENT" false
  | .rotationSensorSetup =>
    sensorSetup (n.text "SENSOR") "SENSOR_TYPE_ROTATION" "SENSOR_MODE_ROTATION" true
  | .temperatureSensorSetup =>
    sensorSetup (n.text "SENSOR") "SENSOR_TYPE_TEMPERATURE" "SENSOR_MODE_CELSIUS" false
  | .waitSeconds => [.call "Wait" [.binary .multiply (value "SECONDS") (.atom ticksPerSecond)]]
  | .waitUntil => [.call "until" [value "CONDITION"]]
  | .repeatTimes =>
    if counter then
      [.assign (σ.bound n.handle) (value "TIMES"),
        .repeatTimes (.variable (σ.bound n.handle)) (body "DO")]
    else [.repeatTimes (value "TIMES") (body "DO")]
  | .repeatForever => [.forever (body "DO")]
  | .repeatUntil => [.doUntil (body "DO") (value "CONDITION")]
  | .variableSet => [.assign (σ.name .variable (n.text "VAR")) (value "VALUE")]
  | .conditional =>
    [.branches (arms value body n.valueSlots.length)
      (if n.statementSlots.contains "ELSE" then some (body "ELSE") else none)]
  | .startTask => [.start (σ.name .task (n.text "NAME"))]
  | .stopTask => [.stop (σ.name .task (n.text "NAME"))]
  | _ => [.expression (valueExpr σ n value)]

def nodeNotes (n : Node) (counter : Bool) (value : String → Order → List CodeNote)
    (body : String → List CodeNote) : List CodeNote :=
  match n.kind with
  | .motorOnWithPower | .setPower => value "POWER" .multiplicative
  | .waitSeconds => value "SECONDS" .multiplicative
  | .waitUntil => value "CONDITION" .none
  | .repeatTimes => value "TIMES" (if counter then .assignment else .none) ++ body "DO"
  | .repeatForever => body "DO"
  | .repeatUntil => body "DO" ++ value "CONDITION" .none
  | .variableSet => value "VALUE" .assignment
  | .conditional =>
    ((List.range n.valueSlots.length).flatMap fun i =>
        value ("IF" ++ Number.natText i) .none ++ body ("DO" ++ Number.natText i))
      ++ if n.statementSlots.contains "ELSE" then body "ELSE" else []
  | _ => valueNotes n value

mutual
def BlockTree.stmts (σ : Spelling) : BlockTree → List Stmt
  | .mk n attached operands bodies =>
    if n.enabled then
      withComments (BlockTree.mk n attached operands bodies).remarks
        (nodeStmts σ n (BlockTree.mk n attached operands bodies).needsCounter
          (slotExpr n (readings σ operands))
          (fun slot => (Table.get? slot (bodyStmts σ bodies)).getD []))
    else []
def bodyStmts (σ : Spelling) : Bodies → List (String × List Stmt)
  | [] => []
  | (slot, chain) :: rest => (slot, chainStmts σ chain) :: bodyStmts σ rest
def chainStmts (σ : Spelling) : List BlockTree → List Stmt
  | [] => []
  | t :: rest => t.stmts σ ++ chainStmts σ rest
end

mutual
def BlockTree.notes (σ : Spelling) : BlockTree → List CodeNote
  | .mk n attached operands bodies =>
    if n.enabled then
      nodeNotes n (BlockTree.mk n attached operands bodies).needsCounter
        (slotNotes n (readings σ operands))
        (fun slot => (Table.get? slot (bodyNotes σ bodies)).getD [])
    else []
def bodyNotes (σ : Spelling) : Bodies → List (String × List CodeNote)
  | [] => []
  | (slot, chain) :: rest => (slot, chainNotes σ chain) :: bodyNotes σ rest
def chainNotes (σ : Spelling) : List BlockTree → List CodeNote
  | [] => []
  | t :: rest => t.notes σ ++ chainNotes σ rest
end

end NqcBlocks
