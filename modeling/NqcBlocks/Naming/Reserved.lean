/-!
# Reserved names

The words of NQC that a program may not use as names of its own: the keywords of the language, the
functions of its library and its predefined constants. A task may not be called `main` either, which
is what the main task is called.
-/

namespace NqcBlocks

def keywords : List String :=
  ["task", "sub", "inline", "void", "int", "const", "asm", "if", "else", "while", "do", "for",
    "repeat", "switch", "case", "default", "break", "continue", "until", "return", "monitor",
    "catch", "acquire", "release", "start", "stop", "true", "false"]

def libraryFunctions : List String :=
  ["abs", "sign", "Random", "OnFwd", "OnRev", "Off", "Float", "Fwd", "Rev", "Toggle", "SetPower",
    "SetDirection", "ClearTimer", "Timer", "Wait", "PlaySound", "PlayTone", "ClearMessage",
    "SendMessage", "Message", "SetSensor", "SetSensorType", "SetSensorMode", "ClearSensor",
    "Sensor", "SensorValue", "SensorType", "SensorMode", "StartTask", "StopTask", "StopAllTasks",
    "SetPriority"]

def predefinedConstants : List String :=
  ["OUT_A", "OUT_B", "OUT_C", "OUT_FWD", "OUT_REV", "SENSOR_1", "SENSOR_2", "SENSOR_3"]

def reservedWords : List String := keywords ++ libraryFunctions ++ predefinedConstants

def entryName : String := "main"

def isReserved (name : String) : Bool := reservedWords.contains name

def isReservedTask (name : String) : Bool := name == entryName || isReserved name

end NqcBlocks
