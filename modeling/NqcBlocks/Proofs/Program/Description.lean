import NqcBlocks.Proofs.Nqc.Grammar
import NqcBlocks.Proofs.Program.Sections

/-!
# The program that blocks describe

The syntax tree that the blocks of a graph describe, said in terms of trees and not of text. Each kind of
block has its own form of statement or expression. A socket that is empty, or holds a disabled value,
has the default of its kind; a disabled statement describes nothing, and neither does anything in it, but
the statements after it do. A section is its declarations and the statements of its chains, in order.
-/

namespace NqcBlocks

open Nqc

/-! ## Values -/

def operationNames : Table Operator :=
  [("ADD", .add), ("MINUS", .subtract), ("MULTIPLY", .multiply), ("DIVIDE", .divide),
    ("EQ", .equal), ("NEQ", .notEqual), ("LT", .less), ("LTE", .lessEqual), ("GT", .greater),
    ("GTE", .greaterEqual), ("AND", .and), ("OR", .or)]

def Node.operation? (n : Node) : Option Operator :=
  match n.kind with
  | .arithmetic | .compare | .logic => operationNames.get? (n.text "OP")
  | _ => none

def BlockKind.defaultTree : BlockKind → ExprTree
  | .motorOnWithPower | .setPower => .number 50
  | .waitSeconds => .number 1
  | .repeatTimes => .number 10
  | .waitUntil | .negate => .truth true
  | .repeatUntil | .conditional | .logic => .truth false
  | _ => .number 0

def portTree (port : String) : ExprTree :=
  match Text.splitOnChar port '+' with
  | [] => .name port
  | first :: rest => rest.foldl (fun sum name => .binary .add sum (.name name)) (.name first)

def valueTree (σ : Spelling) (n : Node) (value : String → ExprTree) : ExprTree :=
  match n.kind with
  | .number | .percent => match n.fields.get? "NUM" with
    | some (.number (.int k)) => .ofInt k
    | _ => default
  | .boolean => .truth (n.text "BOOL" == "TRUE")
  | .touchValue | .lightValue | .rotationValue | .temperatureValue => .name (n.text "SENSOR")
  | .variableGet => .name (σ.name .variable (n.text "VAR"))
  | .arithmetic | .compare | .logic =>
    .binary (n.operation?.getD default) (value "A") (value "B")
  | .negate => .not (value "BOOL")
  | .group => value "VALUE"
  | _ => default

def slotTree (n : Node) (values : List (String × Option ExprTree)) (slot : String) : ExprTree :=
  (Table.get? slot values).join.getD n.kind.defaultTree

mutual
def BlockTree.valueTree (σ : Spelling) : BlockTree → ExprTree
  | .mk n _ operands _ => NqcBlocks.valueTree σ n (slotTree n (operandTrees σ operands))
def operandTrees (σ : Spelling) : Operands → List (String × Option ExprTree)
  | [] => []
  | (slot, none) :: rest => (slot, none) :: operandTrees σ rest
  | (slot, some t) :: rest =>
    (slot, if t.node.enabled then some (t.valueTree σ) else none) :: operandTrees σ rest
end

/-! ## Statements -/

def powerTree (port : String) (percent : ExprTree) : StmtTree :=
  .call "SetPower" [portTree port,
    .binary .divide (.binary .multiply percent (.number 7)) (.number 100)]

def onTree (port direction : String) : StmtTree :=
  .call (if direction == "FWD" then "OnFwd" else "OnRev") [portTree port]

def sensorTrees (sensor type mode : String) : List StmtTree :=
  [.call "SetSensorType" [.name sensor, .name type],
    .call "SetSensorMode" [.name sensor, .name mode]]

/-- **The statements that a block describes**, given what is in its sockets and bodies and whether its
count has to be computed first. -/
def statementTrees (σ : Spelling) (n : Node) (counter : Bool) (value : String → ExprTree)
    (body : String → List StmtTree) : List StmtTree :=
  match n.kind with
  | .motorOnWithPower =>
    [powerTree (n.text "MOTOR") (value "POWER"), onTree (n.text "MOTOR") (n.text "DIRECTION")]
  | .motorOn => [onTree (n.text "MOTOR") (n.text "DIRECTION")]
  | .motorOff => [.call "Off" [portTree (n.text "MOTOR")]]
  | .setPower => [powerTree (n.text "MOTOR") (value "POWER")]
  | .setDirection => [.call "SetDirection" [portTree (n.text "MOTOR"),
      .name (if n.text "DIRECTION" == "FWD" then "OUT_FWD" else "OUT_REV")]]
  | .playSound => [.call "PlaySound" [.name (n.text "SOUND")]]
  | .touchSensorSetup => sensorTrees (n.text "SENSOR") "SENSOR_TYPE_TOUCH" "SENSOR_MODE_BOOL"
  | .lightSensorSetup => sensorTrees (n.text "SENSOR") "SENSOR_TYPE_LIGHT" "SENSOR_MODE_PERCENT"
  | .rotationSensorSetup =>
    sensorTrees (n.text "SENSOR") "SENSOR_TYPE_ROTATION" "SENSOR_MODE_ROTATION"
      ++ [.call "ClearSensor" [.name (n.text "SENSOR")]]
  | .temperatureSensorSetup =>
    sensorTrees (n.text "SENSOR") "SENSOR_TYPE_TEMPERATURE" "SENSOR_MODE_CELSIUS"
  | .waitSeconds => [.call "Wait" [.binary .multiply (value "SECONDS") (.number 100)]]
  | .waitUntil => [.call "until" [value "CONDITION"]]
  | .repeatTimes =>
    if counter then
      [.assign (σ.bound n.handle) (value "TIMES"),
        .repeatLoop (.name (σ.bound n.handle)) (body "DO")]
    else [.repeatLoop (value "TIMES") (body "DO")]
  | .repeatForever => [.whileLoop (.truth true) (body "DO")]
  | .repeatUntil => [.doWhile (body "DO") (.not (value "CONDITION"))]
  | .variableSet => [.assign (σ.name .variable (n.text "VAR")) (value "VALUE")]
  | .conditional =>
    [.branches ((List.range n.valueSlots.length).map fun i =>
        (value ("IF" ++ Number.natText i), body ("DO" ++ Number.natText i)))
      (if n.statementSlots.contains "ELSE" then some (body "ELSE") else none)]
  | .startTask => [.start (σ.name .task (n.text "NAME"))]
  | .stopTask => [.stop (σ.name .task (n.text "NAME"))]
  | _ => [.expression (valueTree σ n value)]

mutual
def BlockTree.statementTrees (σ : Spelling) : BlockTree → List StmtTree
  | .mk n attached operands bodies =>
    if n.enabled then
      NqcBlocks.statementTrees σ n (BlockTree.mk n attached operands bodies).needsCounter
        (slotTree n (operandTrees σ operands))
        (fun slot => (Table.get? slot (bodyTrees σ bodies)).getD [])
    else []
def bodyTrees (σ : Spelling) : Bodies → List (String × List StmtTree)
  | [] => []
  | (slot, chain) :: rest => (slot, chainTrees σ chain) :: bodyTrees σ rest
def chainTrees (σ : Spelling) : List BlockTree → List StmtTree
  | [] => []
  | t :: rest => t.statementTrees σ ++ chainTrees σ rest
end

/-! ## Programs -/

namespace Generation

def sectionTrees (g : Graph) (r : Resolver) (key : ScopeKey) (heads : List Handle) :
    List StmtTree :=
  (scopeOf g r key heads).names.map (fun name => .declare name.plain)
    ++ chainTrees (spellingOf g r key heads) (treesOf g heads)

def itemTrees (g : Graph) (r : Resolver) : Section → List ItemTree
  | .preamble _ => []
  | .global loose => (sectionTrees g r .global loose).map .statement
  | .task root => ((g.get? root).map fun n =>
      [.task (taskOf r n).name (sectionTrees g r (taskOf r n).key (taskOf r n).heads)]).getD []
  | .main loose => [.task entryName (sectionTrees g r .main loose)]

def programTrees (g : Graph) (options : Options) : List ItemTree :=
  let r := g.resolver options.policy
  (sections options (g.plan r)).flatMap (itemTrees g r)

end Generation

end NqcBlocks
