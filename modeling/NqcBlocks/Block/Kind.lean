/-!
# Block kinds

The kinds of block a robot program is built from. The built-in kinds are constructors; an editor may
register further kinds at run time, and those are known by their tag alone (`extension`). `tag` is the
name of a kind in documents and messages, and `ofTag` finds the kind of a name, so that a name which
is not built in always denotes an extension.
-/

namespace NqcBlocks

inductive BlockKind where
  | mainTask
  | namedTask
  | motorOnWithPower
  | motorOn
  | motorOff
  | setPower
  | setDirection
  | playSound
  | touchSensorSetup
  | lightSensorSetup
  | rotationSensorSetup
  | temperatureSensorSetup
  | touchValue
  | lightValue
  | rotationValue
  | temperatureValue
  | waitSeconds
  | waitUntil
  | repeatTimes
  | repeatForever
  | repeatUntil
  | variableSet
  | variableGet
  | number
  | percent
  | arithmetic
  | group
  | compare
  | logic
  | negate
  | boolean
  | conditional
  | startTask
  | stopTask
  | extension (tag : String)
  deriving DecidableEq, Repr, Inhabited

namespace BlockKind

def builtin : List BlockKind :=
  [.mainTask, .namedTask, .motorOnWithPower, .motorOn, .motorOff, .setPower, .setDirection,
    .playSound, .touchSensorSetup, .lightSensorSetup, .rotationSensorSetup,
    .temperatureSensorSetup, .touchValue, .lightValue, .rotationValue, .temperatureValue,
    .waitSeconds, .waitUntil, .repeatTimes, .repeatForever, .repeatUntil, .variableSet,
    .variableGet, .number, .percent, .arithmetic, .group, .compare, .logic, .negate, .boolean,
    .conditional, .startTask, .stopTask]

def tag : BlockKind → String
  | .mainTask => "main_task"
  | .namedTask => "named_task"
  | .motorOnWithPower => "motor_on_with_power"
  | .motorOn => "motor_on"
  | .motorOff => "motor_off"
  | .setPower => "set_power"
  | .setDirection => "set_direction"
  | .playSound => "play_sound"
  | .touchSensorSetup => "touch_sensor_setup"
  | .lightSensorSetup => "light_sensor_setup"
  | .rotationSensorSetup => "rotation_sensor_setup"
  | .temperatureSensorSetup => "temperature_sensor_setup"
  | .touchValue => "touch_value"
  | .lightValue => "light_value"
  | .rotationValue => "rotation_value"
  | .temperatureValue => "temperature_value"
  | .waitSeconds => "wait_seconds"
  | .waitUntil => "wait_until"
  | .repeatTimes => "repeat_times"
  | .repeatForever => "repeat_forever"
  | .repeatUntil => "repeat_until"
  | .variableSet => "variable_set"
  | .variableGet => "variable_get"
  | .number => "number"
  | .percent => "percent"
  | .arithmetic => "arithmetic"
  | .group => "group"
  | .compare => "compare"
  | .logic => "logic"
  | .negate => "negate"
  | .boolean => "boolean"
  | .conditional => "if"
  | .startTask => "start_task"
  | .stopTask => "stop_task"
  | .extension tag => tag

def ofTag (tag : String) : BlockKind :=
  (builtin.find? fun k => k.tag == tag).getD (.extension tag)

def isBuiltin : BlockKind → Bool
  | .extension _ => false
  | _ => true

def isTask : BlockKind → Bool
  | .mainTask | .namedTask => true
  | _ => false

theorem ofTag_tag_of_mem {k : BlockKind} (h : k ∈ builtin) : ofTag k.tag = k := by
  revert k
  decide

end BlockKind

end NqcBlocks
