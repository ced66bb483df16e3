import NqcBlocks.Block.Spec

/-!
# Nodes

A node is one block of a program. Nodes refer to each other by **handle** only: a socket holds the
handle of what is plugged into it, `next` that of the statement after the block, and `parent` names the
**place** the block is plugged into, a position of another block. A position is named by the socket, or
`next` for the place after a statement.
-/

namespace NqcBlocks

/-- The identity of a block in a graph. Handles are issued in order, from one on. -/
abbrev Handle := Nat

def nextPosition : String := "next"

structure Place where
  owner : Handle
  connection : String
  deriving DecidableEq, Repr, Inhabited

structure ValueSlot where
  check : Check
  default : String
  target : Option Handle := none
  deriving DecidableEq, Repr, Inhabited

structure Node where
  handle : Handle
  kind : BlockKind
  fields : Table Json := []
  valueSlots : Table ValueSlot := []
  statementSlots : Table (Option Handle) := []
  next : Option Handle := none
  parent : Option Place := none
  comment : Option Json := none
  enabled : Bool := true
  warning : Option String := none
  mutation : Table Json := []
  id : Json := .null
  deriving Repr, Inhabited

namespace Node

def label (n : Node) : String :=
  "Node(" ++ Number.natText n.handle ++ ", " ++ n.kind.tag ++ ")"

def plugValue (n : Node) (slot : String) (target : Option Handle) : Node :=
  { n with valueSlots := n.valueSlots.map fun (name, s) =>
      (name, if name == slot then { s with target } else s) }

def plugStatement (n : Node) (slot : String) (target : Option Handle) : Node :=
  { n with statementSlots := n.statementSlots.map fun (name, s) =>
      (name, if name == slot then target else s) }

def unplug (n : Node) (position : String) : Node :=
  if position == nextPosition then { n with next := none }
  else if n.valueSlots.contains position then n.plugValue position none
  else n.plugStatement position none

def targets (n : Node) : List Handle :=
  n.valueSlots.filterMap (·.2.target) ++ n.statementSlots.filterMap (·.2) ++ n.next.toList

def text (n : Node) (field : String) : String :=
  ((n.fields.get? field).bind Json.text?).getD ""

end Node

end NqcBlocks
