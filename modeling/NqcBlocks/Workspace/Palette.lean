import NqcBlocks.Block.Kind
import NqcBlocks.Json.Basic

/-!
# The editor's palette

The block editor has names of its own, in Portuguese, for its block types and for some of their fields
and inputs. The palette says which kind each type stands for and what its fields and inputs are called
there; a name the palette does not list stands for itself.
-/

namespace NqcBlocks

structure PaletteEntry where
  kind : BlockKind
  fields : Table String := []
  inputs : Table String := []
  mutation : Table Json := []
  deriving Inhabited

namespace PaletteEntry

def plain (kind : BlockKind) : PaletteEntry := { kind }

def field (e : PaletteEntry) (name : String) : String := (e.fields.get? name).getD name

def input (e : PaletteEntry) (name : String) : String := (e.inputs.get? name).getD name

end PaletteEntry

namespace Palette

def direction : Table String := [("SENTIDO", "DIRECTION")]

def power : Table String := [("POTENCIA", "POWER")]

def condition : Table String := [("CONDICAO", "CONDITION")]

def taskName : Table String := [("NOME", "NAME")]

def firstBranch : Table String := [("CONDICAO", "IF0"), ("DO", "DO0")]

def types : Table PaletteEntry :=
  [("nqc_ligar_motor_com_potencia",
      { kind := .motorOnWithPower, fields := direction, inputs := power }),
    ("nqc_ligar_motor", { kind := .motorOn, fields := direction }),
    ("nqc_desligar_motor", .plain .motorOff),
    ("nqc_define_potencia_percent", { kind := .setPower, inputs := power }),
    ("nqc_define_sentido", { kind := .setDirection, fields := direction }),
    ("nqc_toca_som", { kind := .playSound, fields := [("SOM", "SOUND")] }),
    ("nqc_define_sensor_toque", .plain .touchSensorSetup),
    ("nqc_define_sensor_luz", .plain .lightSensorSetup),
    ("nqc_define_sensor_rotacao", .plain .rotationSensorSetup),
    ("nqc_define_sensor_temperatura", .plain .temperatureSensorSetup),
    ("nqc_valor_sensor_toque", .plain .touchValue),
    ("nqc_valor_sensor_luz", .plain .lightValue),
    ("nqc_valor_sensor_rotacao", .plain .rotationValue),
    ("nqc_valor_sensor_temperatura", .plain .temperatureValue),
    ("nqc_espera_segundos", .plain .waitSeconds),
    ("nqc_espera_ate_que", { kind := .waitUntil, inputs := condition }),
    ("nqc_repita_vezes", .plain .repeatTimes),
    ("nqc_repita_infinitamente", .plain .repeatForever),
    ("nqc_repita_ate_que", { kind := .repeatUntil, inputs := condition }),
    ("nqc_variavel_recebe", { kind := .variableSet, inputs := [("VALOR", "VALUE")] }),
    ("nqc_valor_variavel", .plain .variableGet),
    ("nqc_numero", .plain .number),
    ("nqc_percentual", .plain .percent),
    ("nqc_operacao_matematica", .plain .arithmetic),
    ("nqc_comparacao", .plain .compare),
    ("nqc_operacao_logica", .plain .logic),
    ("nqc_contrario", .plain .negate),
    ("nqc_booleano", .plain .boolean),
    ("nqc_se_faca", { kind := .conditional, inputs := firstBranch }),
    ("nqc_se_faca_senao",
      { kind := .conditional, inputs := firstBranch, mutation := [("has_else", .bool true)] }),
    ("nqc_tarefa_principal", .plain .mainTask),
    ("nqc_tarefa_nomeada", { kind := .namedTask, fields := taskName }),
    ("nqc_executar_tarefa", { kind := .startTask, fields := taskName }),
    ("nqc_interromper_tarefa", { kind := .stopTask, fields := taskName })]

def entry (type : String) : PaletteEntry :=
  (types.get? type).getD (.plain (.ofTag type))

end Palette

end NqcBlocks
