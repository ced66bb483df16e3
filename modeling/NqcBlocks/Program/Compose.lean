import NqcBlocks.Nqc.Stmt
import NqcBlocks.Program.Comment
import NqcBlocks.Program.Prescan

/-!
# From blocks to code

What each kind of block stands for in NQC. A value becomes an expression and a statement becomes one
or more statements; a value that stands where a statement is expected becomes an expression statement.
An empty socket, or one that holds a disabled value, stands for its default.
-/

namespace NqcBlocks

open Nqc

structure Occupant where
  handle : Handle
  enabled : Bool
  code : Gen Expr

/-- The values in a block's sockets. -/
abbrev Occupants := List (String × Option Occupant)

def groupingNote (code : Expr) (owner : BlockKind) (slot : String) : String :=
  "\"" ++ code.text ++ "\" binds looser than its place in " ++ owner.tag ++ "." ++ slot
    ++ "; add a grouping block if the result is wrong."

def slotCode (n : Node) (attached : Bool) (occupants : Occupants) (slot : String)
    (required : Order) : Gen Expr := do
  if !attached then throw (.graph (.noBlock n.handle))
  match Table.get? slot occupants with
  | none => throw (.graph (.noValueSlot n.kind slot))
  | some occupant => match occupant.filter (·.enabled) with
    | none => pure (.atom (((n.valueSlots.get? slot).map (·.default)).getD ""))
    | some o =>
      let code ← o.code
      if code.order.needsGrouping required then Gen.note o.handle (groupingNote code n.kind slot)
      pure code

/-! ## Values -/

def numberCode (n : Number) : Expr :=
  .literal n.code (if n.isNegative then .unaryPrefix else .atomic)

def Node.number (n : Node) (field : String) : Number :=
  match n.fields.get? field with
  | some (.number value) => value
  | _ => .int 0

def arithmeticOperator (op : String) : Operator :=
  if op == "ADD" then .add
  else if op == "MINUS" then .subtract
  else if op == "MULTIPLY" then .multiply
  else .divide

def compareOperator (op : String) : Operator :=
  if op == "EQ" then .equal
  else if op == "NEQ" then .notEqual
  else if op == "LT" then .less
  else if op == "LTE" then .lessEqual
  else if op == "GT" then .greater
  else .greaterEqual

def logicOperator (op : String) : Operator := if op == "AND" then .and else .or

def binaryCode (value : String → Order → Gen Expr) (op : Operator) : Gen Expr := do
  let left ← value "A" op.order
  let right ← value "B" op.order
  pure (.binary op left right)

def valueCode (n : Node) (value : String → Order → Gen Expr) : Gen Expr :=
  match n.kind with
  | .number | .percent => pure (numberCode (n.number "NUM"))
  | .boolean => pure (.atom (if n.text "BOOL" == "TRUE" then "true" else "false"))
  | .touchValue | .lightValue | .rotationValue | .temperatureValue =>
    pure (.atom (n.text "SENSOR"))
  | .variableGet => return .variable (← Gen.useVariable (n.text "VAR"))
  | .arithmetic => binaryCode value (arithmeticOperator (n.text "OP"))
  | .compare => binaryCode value (compareOperator (n.text "OP"))
  | .logic => binaryCode value (logicOperator (n.text "OP"))
  | .negate => return .negate (← value "BOOL" .none)
  | .group => return .group (← value "VALUE" .none)
  | _ => throw (.unrenderable n.kind n.handle)

mutual
def BlockTree.valueCode : BlockTree → Gen Expr
  | .mk n attached operands _ =>
    NqcBlocks.valueCode n (slotCode n attached (occupantsOf operands))
def occupantsOf : Operands → Occupants
  | [] => []
  | (slot, none) :: rest => (slot, none) :: occupantsOf rest
  | (slot, some t) :: rest =>
    (slot, some ⟨t.node.handle, t.node.enabled, t.valueCode⟩) :: occupantsOf rest
end

/-! ## Statements -/

def maxPower : String := "7"

def ticksPerSecond : String := "100"

def constantCall (function : String) (arguments : List String) : Stmt :=
  .call function (arguments.map .atom)

def setPower (motor : String) (percent : Expr) : Stmt :=
  .call "SetPower" [.atom motor,
    .group (.binary .divide (.binary .multiply percent (.atom maxPower)) (.atom "100"))]

def motorOn (motor direction : String) : Stmt :=
  constantCall (if direction == "FWD" then "OnFwd" else "OnRev") [motor]

def sensorSetup (sensor type mode : String) (clear : Bool) : List Stmt :=
  [constantCall "SetSensorType" [sensor, type], constantCall "SetSensorMode" [sensor, mode]]
    ++ if clear then [constantCall "ClearSensor" [sensor]] else []

def armsCode (value : String → Order → Gen Expr) (body : String → Gen (List Stmt)) (count : Nat) :
    Gen (List (Expr × List Stmt)) :=
  (List.range count).mapM fun i => do
    let condition ← value ("IF" ++ Number.natText i) .none
    let statements ← body ("DO" ++ Number.natText i)
    pure (condition, statements)

/-- **The code of a statement**, given that of its sockets and bodies and whether its count has to be
computed first. -/
def statementCode (n : Node) (needsBound : Gen Bool) (value : String → Order → Gen Expr)
    (body : String → Gen (List Stmt)) : Gen (List Stmt) :=
  match n.kind with
  | .motorOnWithPower => do
    let percent ← value "POWER" .multiplicative
    pure [setPower (n.text "MOTOR") percent, motorOn (n.text "MOTOR") (n.text "DIRECTION")]
  | .motorOn => pure [motorOn (n.text "MOTOR") (n.text "DIRECTION")]
  | .motorOff => pure [constantCall "Off" [n.text "MOTOR"]]
  | .setPower => do
    let percent ← value "POWER" .multiplicative
    pure [setPower (n.text "MOTOR") percent]
  | .setDirection =>
    let direction := if n.text "DIRECTION" == "FWD" then "OUT_FWD" else "OUT_REV"
    pure [constantCall "SetDirection" [n.text "MOTOR", direction]]
  | .playSound => pure [constantCall "PlaySound" [n.text "SOUND"]]
  | .touchSensorSetup =>
    pure (sensorSetup (n.text "SENSOR") "SENSOR_TYPE_TOUCH" "SENSOR_MODE_BOOL" false)
  | .lightSensorSetup =>
    pure (sensorSetup (n.text "SENSOR") "SENSOR_TYPE_LIGHT" "SENSOR_MODE_PERCENT" false)
  | .rotationSensorSetup =>
    pure (sensorSetup (n.text "SENSOR") "SENSOR_TYPE_ROTATION" "SENSOR_MODE_ROTATION" true)
  | .temperatureSensorSetup =>
    pure (sensorSetup (n.text "SENSOR") "SENSOR_TYPE_TEMPERATURE" "SENSOR_MODE_CELSIUS" false)
  | .waitSeconds => do
    let seconds ← value "SECONDS" .multiplicative
    pure [.call "Wait" [.binary .multiply seconds (.atom ticksPerSecond)]]
  | .waitUntil => do
    let condition ← value "CONDITION" .none
    pure [.call "until" [condition]]
  | .repeatTimes => do
    if ← needsBound then
      let counter ← Gen.auxiliary n
      let bound ← value "TIMES" .assignment
      let statements ← body "DO"
      pure [.assign counter bound, .repeatTimes (.variable counter) statements]
    else
      let times ← value "TIMES" .none
      let statements ← body "DO"
      pure [.repeatTimes times statements]
  | .repeatForever => do
    let statements ← body "DO"
    pure [.forever statements]
  | .repeatUntil => do
    let statements ← body "DO"
    let condition ← value "CONDITION" .none
    pure [.doUntil statements condition]
  | .variableSet => do
    let name ← Gen.useVariable (n.text "VAR")
    let assigned ← value "VALUE" .assignment
    pure [.assign name assigned]
  | .conditional => do
    let arms ← armsCode value body n.valueSlots.length
    let otherwise ← if n.statementSlots.contains "ELSE" then
        some <$> body "ELSE"
      else pure none
    pure [.branches arms otherwise]
  | .startTask => return [.start (← Gen.resolve .task (n.text "NAME"))]
  | .stopTask => return [.stop (← Gen.resolve .task (n.text "NAME"))]
  | _ => return [.expression (← valueCode n value)]

def BlockKind.isRenderable : BlockKind → Bool
  | .mainTask | .namedTask | .extension _ => false
  | _ => true

def bodyCode (n : Node) (attached : Bool) (bodies : List (String × Gen (List Stmt)))
    (slot : String) : Gen (List Stmt) := do
  if !attached then throw (.graph (.noBlock n.handle))
  match Table.get? slot bodies with
  | none => throw (.graph (.noStatementSlot n.kind slot))
  | some code => code

def withComments (comments : String) (statements : List Stmt) : List Stmt :=
  if comments.isEmpty then statements else .comment comments :: statements

mutual
def BlockTree.code (catalog : Catalog) : BlockTree → Gen (List Stmt)
  | .mk n attached operands bodies =>
    if n.enabled then do
      let comments ← (BlockTree.mk n attached operands bodies).comments
      let statements ← statementCode n
        (Gen.ofGraph (needsBound catalog (.mk n attached operands bodies)))
        (slotCode n attached (occupantsOf operands))
        (bodyCode n attached (bodiesCode catalog bodies))
      pure (withComments comments statements)
    else pure []
def bodiesCode (catalog : Catalog) :
    Bodies → List (String × Gen (List Stmt))
  | [] => []
  | (slot, chain) :: rest => (slot, chainCode catalog chain) :: bodiesCode catalog rest
def chainCode (catalog : Catalog) : List BlockTree → Gen (List Stmt)
  | [] => pure []
  | t :: rest => do
    let first ← t.code catalog
    pure (first ++ (← chainCode catalog rest))
end

def Catalog.missingRenderers (catalog : Catalog) : List BlockKind :=
  catalog.kinds.filter fun kind =>
    !kind.isRenderable && !(catalog.spec? kind).any (·.isRootOnly)

end NqcBlocks
