import NqcBlocks.Graph.Query
import NqcBlocks.Nqc.Order
import NqcBlocks.Program.Report
import NqcBlocks.Program.Scope

/-!
# Generating code

Generation works on a **context**: the options, the names resolved so far, the scope that is open, the
notes about operands that bind too loosely, and the reports made. A computation on a context may fail;
what it did to the context before it failed remains.
-/

namespace NqcBlocks

structure Options where
  indent : String := "  "
  policy : ReservedPolicy := .reject
  preamble : String := ""
  deriving DecidableEq, Repr, Inhabited

inductive Defect where
  | commentNotText (node : Handle)
  | missingField (node : Handle) (field : String)
  | noScope
  | compoundName
  | missingSlot (node : Handle) (slot : String)
  deriving DecidableEq, Repr

inductive GenError where
  | reserved (cause : ReservedNameError)
  | scope (cause : ScopeError)
  | unrenderable (kind : BlockKind) (node : Handle)
  | graph (cause : GraphError)
  | defect (what : Defect)
  deriving Repr

def GenError.message? : GenError → Option String
  | .reserved cause => some cause.message
  | .scope cause => some cause.message
  | .unrenderable kind node =>
    some ("No code generator for block kind \"" ++ kind.tag ++ "\" (block "
      ++ Number.natText node ++ ").")
  | .graph cause => some cause.message
  | .defect _ => none

structure CodeNote where
  node : Handle
  text : String
  deriving DecidableEq, Repr

structure Context where
  options : Options := {}
  names : Resolver
  scope : Option Scope := none
  notes : List CodeNote := []
  reports : List CodeReport := []
  deriving Inhabited

/-- A computation on a context that may fail. -/
abbrev Gen (α : Type) := ExceptT GenError (StateM Context) α

def Graph.identifiersOf (g : Graph) (n : Node) : List Json :=
  match g.spec? n with
  | none => []
  | some spec => (spec.fields.filter fun f => f.kind == .identifier).filterMap fun f =>
      (n.fields.get? f.name).bind Json.truthy?

def Graph.identifiers (g : Graph) : List Json := g.nodes.flatMap g.identifiersOf

def Graph.userNames (g : Graph) : List Name :=
  Name.distinct (g.identifiers.filterMap Name.ofJson?)

def Graph.isNamed (g : Graph) : Bool := g.identifiers.all fun j => (Name.ofJson? j).isSome

def Context.start (options : Options := {}) : Context :=
  { options, names := { policy := options.policy } }

namespace Gen

def emit (r : CodeReport) : Gen Unit :=
  modify fun c => { c with reports := c.reports ++ [r] }

def begin (g : Graph) : Gen Unit :=
  if g.isNamed then modify fun c => { c with names := { c.names with taken := g.userNames } }
  else throw (.defect .compoundName)

def resolve (use : NameUse) (name : String) : Gen String := do
  match (← get).names.resolve use name with
  | .error cause => throw (.reserved cause)
  | .ok (new, names) =>
    modify fun c => { c with names }
    pure new

def nameOf (value : Json) : Gen Name :=
  match Name.ofJson? value with
  | none => throw (.defect .compoundName)
  | some name => pure name

def resolveValue (use : NameUse) (value : Json) : Gen Name := do
  match (← get).names.resolveName use (← nameOf value) with
  | .error cause => throw (.reserved cause)
  | .ok (new, names) =>
    modify fun c => { c with names }
    pure new

def openScope (key : ScopeKey) : Gen Unit := do
  match (← get).scope with
  | some current => throw (.scope (.alreadyOpen key current.key))
  | none => modify fun c => { c with scope := some { key } }

def closeScope : Gen Unit := do
  match (← get).scope with
  | none => throw (.scope .noneOpen)
  | some _ => modify fun c => { c with scope := none }

def register (name : Name) : Gen Bool := do
  match (← get).scope with
  | none => throw (.scope (.outside name.plain))
  | some scope => match scope.register name with
    | .error cause => throw (.scope cause)
    | .ok (new, scope) =>
      modify fun c => { c with scope := some scope }
      pure new

def useVariable (name : String) : Gen String := do
  let new ← resolve .variable name
  discard (register new)
  pure new

def useValue (value : Json) : Gen Name := do
  let new ← resolveValue .variable value
  discard (register new)
  pure new

def registerValue (value : Json) : Gen Bool := do
  match Name.ofJson? value, (← get).scope with
  | some name, _ => register name
  | none, none => throw (.scope (.outside value.plain))
  | none, some scope =>
    if value.isTruthy then throw (.defect .compoundName) else throw (.scope (.emptyName scope.key))

def declarations (key : ScopeKey) (margin : String) : Gen String := do
  match (← get).scope with
  | none => throw (.scope (.unknown key))
  | some scope =>
    if scope.key = key then pure (scope.declarations margin) else throw (.scope (.unknown key))

def auxiliary (loop : Node) : Gen String := do
  let c ← get
  match c.scope with
  | none => throw (.scope (.loopOutside loop))
  | some scope =>
    let (name, scope) := scope.allocate loop.handle c.names
    set { c with scope := some scope }
    pure name

def note (node : Handle) (text : String) : Gen Unit :=
  modify fun c => { c with notes := c.notes ++ [⟨node, text⟩] }

def takeNotes : Gen (List CodeNote) := do
  let notes := (← get).notes
  modify fun c => { c with notes := [] }
  pure notes

def ofGraph {α : Type} (x : Except GraphError α) : Gen α :=
  match x with
  | .ok a => pure a
  | .error cause => throw (.graph cause)

end Gen

end NqcBlocks
