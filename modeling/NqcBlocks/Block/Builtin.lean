import NqcBlocks.Block.Spec

/-!
# The built-in blocks

The specification of every built-in kind: motors and sound, sensors, waiting and loops, variables,
numbers, conditions, branches and tasks.
-/

namespace NqcBlocks.Builtin

def motorOptions : List String :=
  ["OUT_A", "OUT_B", "OUT_C", "OUT_A+OUT_B", "OUT_A+OUT_C", "OUT_A+OUT_B+OUT_C"]

def directionOptions : List String := ["FWD", "REV"]

def sensorOptions : List String := ["SENSOR_1", "SENSOR_2", "SENSOR_3"]

def soundOptions : List String :=
  ["SOUND_CLICK", "SOUND_DOUBLE_BEEP", "SOUND_DOWN", "SOUND_UP", "SOUND_LOW_BEEP",
    "SOUND_FAST_UP"]

def arithmeticOptions : List String := ["ADD", "MINUS", "MULTIPLY", "DIVIDE"]

def compareOptions : List String := ["EQ", "NEQ", "LT", "LTE", "GT", "GTE"]

def logicOptions : List String := ["AND", "OR"]

def booleanOptions : List String := ["TRUE", "FALSE"]

def defaultTaskName : String := "myTask"

def dropdown (name default : String) (options : List String) : FieldSpec :=
  { name, kind := .dropdown, default := .text default, options }

def identifier (name default : String) : FieldSpec :=
  { name, kind := .identifier, default := .text default }

def motor : FieldSpec := dropdown "MOTOR" "OUT_A" motorOptions

def direction : FieldSpec := dropdown "DIRECTION" "FWD" directionOptions

def sensor : FieldSpec := dropdown "SENSOR" "SENSOR_1" sensorOptions

def power : SlotSpec := ⟨"POWER", .percent, "50"⟩

def sensorSetup (kind : BlockKind) : BlockSpec :=
  { kind, role := .statement, fields := [sensor] }

def sensorValue (kind : BlockKind) (check : Check) : BlockSpec :=
  { kind, role := .value, fields := [sensor], outputCheck := some check }

def spec? (kind : BlockKind) : Option BlockSpec :=
  match kind with
  | .mainTask => some { kind, role := .entry, statementSlots := ["STATEMENTS"] }
  | .namedTask => some
    { kind, role := .subprogram
      fields := [{ identifier "NAME" defaultTaskName with allowEmpty := true }]
      statementSlots := ["STATEMENTS"] }
  | .motorOnWithPower => some
    { kind, role := .statement, fields := [motor, direction], valueSlots := [power] }
  | .motorOn => some { kind, role := .statement, fields := [motor, direction] }
  | .motorOff => some { kind, role := .statement, fields := [motor] }
  | .setPower => some { kind, role := .statement, fields := [motor], valueSlots := [power] }
  | .setDirection => some { kind, role := .statement, fields := [motor, direction] }
  | .playSound => some
    { kind, role := .statement, fields := [dropdown "SOUND" "SOUND_CLICK" soundOptions] }
  | .touchSensorSetup => some (sensorSetup kind)
  | .lightSensorSetup => some (sensorSetup kind)
  | .rotationSensorSetup => some (sensorSetup kind)
  | .temperatureSensorSetup => some (sensorSetup kind)
  | .touchValue => some (sensorValue kind .boolean)
  | .lightValue => some (sensorValue kind .number)
  | .rotationValue => some (sensorValue kind .number)
  | .temperatureValue => some (sensorValue kind .number)
  | .waitSeconds => some
    { kind, role := .statement, valueSlots := [⟨"SECONDS", .number, "1"⟩] }
  | .waitUntil => some
    { kind, role := .statement, valueSlots := [⟨"CONDITION", .boolean, "true"⟩] }
  | .repeatTimes => some
    { kind, role := .statement, valueSlots := [⟨"TIMES", .number, "10"⟩]
      statementSlots := ["DO"], countedBound := some "TIMES" }
  | .repeatForever => some { kind, role := .statement, statementSlots := ["DO"] }
  | .repeatUntil => some
    { kind, role := .statement, valueSlots := [⟨"CONDITION", .boolean, "false"⟩]
      statementSlots := ["DO"] }
  | .variableSet => some
    { kind, role := .statement, fields := [identifier "VAR" "x"]
      valueSlots := [⟨"VALUE", .number, "0"⟩], variableField := some "VAR" }
  | .variableGet => some
    { kind, role := .value, fields := [identifier "VAR" "x"], outputCheck := some .number
      variableField := some "VAR", plainOperand := true }
  | .number => some
    { kind, role := .value, fields := [{ name := "NUM", kind := .number, default := .int 0 }]
      outputCheck := some .number, plainOperand := true }
  | .percent => some
    { kind, role := .value
      fields := [{ name := "NUM", kind := .number, default := .int 50
                   minimum := some (.int 0), maximum := some (.int 100) }]
      outputCheck := some .percent, plainOperand := true }
  | .arithmetic => some
    { kind, role := .value, fields := [dropdown "OP" "ADD" arithmeticOptions]
      valueSlots := [⟨"A", .number, "0"⟩, ⟨"B", .number, "0"⟩], outputCheck := some .number }
  | .group => some
    { kind, role := .value, valueSlots := [⟨"VALUE", .number, "0"⟩], outputCheck := some .number }
  | .compare => some
    { kind, role := .value, fields := [dropdown "OP" "EQ" compareOptions]
      valueSlots := [⟨"A", .number, "0"⟩, ⟨"B", .number, "0"⟩], outputCheck := some .boolean }
  | .logic => some
    { kind, role := .value, fields := [dropdown "OP" "AND" logicOptions]
      valueSlots := [⟨"A", .boolean, "false"⟩, ⟨"B", .boolean, "false"⟩]
      outputCheck := some .boolean }
  | .negate => some
    { kind, role := .value, valueSlots := [⟨"BOOL", .boolean, "true"⟩]
      outputCheck := some .boolean }
  | .boolean => some
    { kind, role := .value, fields := [dropdown "BOOL" "TRUE" booleanOptions]
      outputCheck := some .boolean }
  | .conditional => some { kind, role := .statement, shape := .branches }
  | .startTask => some
    { kind, role := .statement, fields := [identifier "NAME" defaultTaskName] }
  | .stopTask => some
    { kind, role := .statement, fields := [identifier "NAME" defaultTaskName] }
  | .extension _ => none

end NqcBlocks.Builtin
