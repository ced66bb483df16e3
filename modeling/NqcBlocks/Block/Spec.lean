import NqcBlocks.Block.Kind
import NqcBlocks.Json.Whole

/-!
# Block specifications

What a block of a kind looks like: its role in a program, its fields with their defaults and rules,
the sockets for values and for chains of statements, and what the declaration of variables needs to
know about it. The conditional has as many sockets as its **shape parameters** ask for; every other
kind has the sockets of its specification.
-/

namespace NqcBlocks

inductive BlockRole where
  | entry
  | subprogram
  | statement
  | value
  deriving DecidableEq, Repr, Inhabited

def BlockRole.name : BlockRole → String
  | .entry => "entry"
  | .subprogram => "subprogram"
  | .statement => "statement"
  | .value => "value"

def BlockRole.ofName? (name : String) : Option BlockRole :=
  [.entry, .subprogram, .statement, .value].find? fun r => r.name == name

inductive FieldKind where
  | text
  | identifier
  | number
  | dropdown
  deriving DecidableEq, Repr, Inhabited

def FieldKind.name : FieldKind → String
  | .text => "text"
  | .identifier => "identifier"
  | .number => "number"
  | .dropdown => "dropdown"

def FieldKind.ofName? (name : String) : Option FieldKind :=
  [.text, .identifier, .number, .dropdown].find? fun k => k.name == name

inductive Check where
  | number
  | boolean
  | percent
  | other (name : String)
  deriving DecidableEq, Repr, Inhabited

namespace Check

def name : Check → String
  | .number => "Number"
  | .boolean => "Boolean"
  | .percent => "Percent"
  | .other name => name

def ofName (name : String) : Check :=
  if name == "Number" then .number
  else if name == "Boolean" then .boolean
  else if name == "Percent" then .percent
  else .other name

def accepts : Check → Option Check → Bool
  | _, none => true
  | .other _, _ => true
  | .boolean, some output => output == .boolean
  | _, some output => output == .number || output == .percent

end Check

structure FieldSpec where
  name : String
  kind : FieldKind
  default : Json
  options : List String := []
  minimum : Option Number := none
  maximum : Option Number := none
  allowEmpty : Bool := false
  deriving Repr, Inhabited

structure SlotSpec where
  name : String
  check : Check
  default : String
  deriving DecidableEq, Repr, Inhabited

inductive BlockShape where
  | fixed
  | branches
  deriving DecidableEq, Repr, Inhabited

structure BlockSpec where
  kind : BlockKind
  role : BlockRole
  fields : List FieldSpec := []
  valueSlots : List SlotSpec := []
  statementSlots : List String := []
  outputCheck : Option Check := none
  variableField : Option String := none
  countedBound : Option String := none
  plainOperand : Bool := false
  shape : BlockShape := .fixed
  deriving Repr, Inhabited

inductive ShapeError where
  | count (cause : Json.WholeError)
  | negative
  deriving DecidableEq, Repr

def ShapeError.message : ShapeError → String
  | .count cause => cause.message
  | .negative => "else_if_count cannot be negative"

namespace BlockSpec

def field? (spec : BlockSpec) (name : String) : Option FieldSpec :=
  spec.fields.find? fun f => f.name == name

def isValue (spec : BlockSpec) : Bool := spec.role == .value

def isStatement (spec : BlockSpec) : Bool := spec.role == .statement

def isRootOnly (spec : BlockSpec) : Bool := spec.role == .entry || spec.role == .subprogram

def branchSlots (count : Nat) (hasElse : Bool) : List SlotSpec × List String :=
  let indices := (List.range (count + 1)).map Number.natText
  (indices.map fun i => ⟨"IF" ++ i, .boolean, "false"⟩,
    indices.map ("DO" ++ ·) ++ if hasElse then ["ELSE"] else [])

def slots (spec : BlockSpec) (mutation : Table Json) :
    Except ShapeError (List SlotSpec × List String) :=
  match spec.shape with
  | .fixed => .ok (spec.valueSlots, spec.statementSlots)
  | .branches =>
    match ((mutation.get? "else_if_count").getD (.int 0)).whole with
    | .error cause => .error (.count cause)
    | .ok count =>
      if count < 0 then .error .negative
      else .ok (branchSlots count.toNat ((mutation.get? "has_else").any Json.isTruthy))

end BlockSpec

end NqcBlocks
