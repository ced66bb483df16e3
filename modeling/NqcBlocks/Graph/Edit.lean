import NqcBlocks.Graph.Query

/-!
# Editing a graph

The edits of a block graph: creating and deleting blocks, writing fields, remarks and flags, and
plugging blocks into each other. An edit either is refused, which leaves no trace, or gives the new
graph together with the **notices** it sends: each says what happened to one block and carries the
graph as it is at that moment, which is what a listener sees. An edit that comes upon a position that
names a block that is gone stops there; no position of a graph over the built-in kinds does.
-/

namespace NqcBlocks

inductive EventKind where
  | create
  | delete
  | change
  | move
  deriving DecidableEq, Repr

def EventKind.name : EventKind → String
  | .create => "create"
  | .delete => "delete"
  | .change => "change"
  | .move => "move"

structure Event where
  what : EventKind
  handle : Handle
  kind : BlockKind
  name : Option String := none
  deriving DecidableEq, Repr

structure Notice where
  event : Event
  graph : Graph

structure Edit where
  graph : Graph
  notices : List Notice := []
  lost : Option Handle := none

namespace Graph

def eventOf (what : EventKind) (n : Node) (name : Option String := none) : Event :=
  ⟨what, n.handle, n.kind, name⟩

/-! ## Blocks -/

def admitFields (spec : BlockSpec) :
    Table Json → List (String × Json) → Except GraphError (Table Json)
  | fields, [] => .ok fields
  | fields, (name, value) :: rest => match spec.field? name with
    | none => .error (.noField spec.kind name)
    | some f => match f.checked value with
      | .error cause => .error (.badField spec.kind name cause)
      | .ok value => admitFields spec (fields.insert name value) rest

structure BlockInit where
  fields : List (String × Json) := []
  mutation : Table Json := []
  comment : Option Json := none
  enabled : Bool := true
  id : Json := .null

def newNode (handle : Handle) (spec : BlockSpec) (i : BlockInit) : Except GraphError Node :=
  match spec.slots i.mutation with
  | .error cause => .error (.invalidShape spec.kind cause)
  | .ok (values, statements) =>
    match admitFields spec (Table.ofEntries (spec.fields.map fun f => (f.name, f.default)))
        i.fields with
    | .error e => .error e
    | .ok fields => .ok
      { handle, kind := spec.kind, fields
        valueSlots := Table.ofEntries (values.map fun s => (s.name, ⟨s.check, s.default, none⟩))
        statementSlots := Table.ofEntries (statements.map fun s => (s, none))
        comment := i.comment, enabled := i.enabled, mutation := i.mutation, id := i.id }

def create (g : Graph) (tag : String) (i : BlockInit := {}) : Except GraphError (Handle × Edit) :=
  match g.catalog.spec? (.ofTag tag) with
  | none => .error (.unknownKind tag)
  | some spec => match newNode g.nextHandle spec i with
    | .error e => .error e
    | .ok n =>
      let g' := g.push n
      .ok (n.handle, { graph := g', notices := [⟨eventOf .create n, g'⟩] })

def detach (g : Graph) (n : Node) : Graph :=
  match n.parent with
  | none => g
  | some p => (g.modify p.owner (·.unplug p.connection)).modify n.handle
      fun n => { n with parent := none }

def checkPlace (g : Graph) (n : Node) : Except GraphError Unit :=
  match g.lostParent? n with
  | some lost => .error (.lost lost)
  | none => .ok ()

def retireAll (g : Graph) : List Node → Graph × Option Handle
  | [] => (g, none)
  | d :: rest => if g.contains d.handle then (g.retire d.handle).retireAll rest
    else (g, some d.handle)

def delete (g : Graph) (h : Handle) : Except GraphError Edit := do
  let n ← g.node h
  g.checkPlace n
  let g := g.detach n
  match g.descendants h with
  | .error _ => return { graph := g, lost := some h }
  | .ok doomed => match g.retireAll doomed with
    | (g, some lost) => return { graph := g, lost := some lost }
    | (g, none) => return { graph := g, notices := doomed.map fun d => ⟨eventOf .delete d, g⟩ }

/-! ## Fields and flags -/

def setField (g : Graph) (h : Handle) (name : String) (value : Json) :
    Except GraphError Edit := do
  let n ← g.node h
  let spec ← g.spec n
  let fields ← admitFields spec n.fields [(name, value)]
  let g := g.modify h fun n => { n with fields }
  return { graph := g, notices := [⟨eventOf .change n name, g⟩] }

def setComment (g : Graph) (h : Handle) (comment : Json) : Except GraphError Edit := do
  let n ← g.node h
  let g := g.modify h fun n => { n with comment := comment.truthy? }
  return { graph := g, notices := [⟨eventOf .change n "comment", g⟩] }

def setEnabled (g : Graph) (h : Handle) (enabled : Bool) : Except GraphError Edit := do
  let n ← g.node h
  let g := g.modify h fun n => { n with enabled }
  return { graph := g, notices := [⟨eventOf .change n "enabled", g⟩] }

def setFlags (g : Graph) (h : Handle) (enabled : Bool) (warning : Option String) : Graph :=
  g.modify h fun n => { n with enabled, warning }

/-! ## Connections -/

def isPartOf (g : Graph) (parent child : Node) : Bool :=
  (g.ancestry parent).any fun n => n.handle == child.handle

def settle (g : Graph) (child : Handle) (place : Place) : Graph :=
  g.modify child fun n => { n with parent := some place }

def valueOccupant (g : Graph) (h : Handle) (slot : String) : Option Handle :=
  ((g.get? h).bind fun n => n.valueSlots.get? slot).bind (·.target)

def connectValue (g : Graph) (parent : Handle) (slot : String) (child : Handle) :
    Except GraphError Edit := do
  let p ← g.node parent
  let c ← g.node child
  let s ← p.valueSlot slot
  let spec ← g.spec c
  if !spec.isValue then throw (.noOutput c.kind slot)
  if !s.check.accepts spec.outputCheck then
    throw (.wrongOutput slot p.kind s.check c.kind (spec.outputCheck.getD s.check))
  if g.isPartOf p c then throw (.cycle c p)
  g.checkPlace c
  let g := g.detach c
  match g.valueOccupant parent slot with
  | none =>
    let g := (g.modify parent (·.plugValue slot child)).settle child ⟨parent, slot⟩
    return { graph := g, notices := [⟨eventOf .move c slot, g⟩] }
  | some o => match g.get? o with
    | none => return { graph := g, lost := some o }
    | some freed =>
      let before := g.modify o fun n => { n with parent := none }
      let g := (before.modify parent (·.plugValue slot child)).settle child ⟨parent, slot⟩
      return { graph := g, notices := [⟨eventOf .move freed, before⟩, ⟨eventOf .move c slot, g⟩] }

inductive ChainPosition where
  | next
  | slot (name : String)

def ChainPosition.name : ChainPosition → String
  | .next => nextPosition
  | .slot name => name

def occupant (g : Graph) (h : Handle) (position : String) : Option Handle :=
  (g.get? h).bind fun n =>
    if position == nextPosition then n.next else (n.statementSlots.get? position).bind id

def ChainPosition.fill (position : ChainPosition) (target : Handle) (n : Node) : Node :=
  match position with
  | .next => { n with next := some target }
  | .slot name => n.plugStatement name target

def attachChain (g : Graph) (p : Node) (position : ChainPosition) (occupied : Option Handle)
    (child : Handle) : Except GraphError Edit := do
  let c ← g.node child
  if !(← g.spec c).isStatement then throw (.notChainable c.kind)
  if g.isPartOf p c then throw (.cycle c p)
  g.checkPlace c
  let g' := g.detach c
  let occupied := if c.parent.isSome then g'.occupant p.handle position.name else occupied
  let g' := (g'.modify p.handle (position.fill child)).settle child ⟨p.handle, position.name⟩
  match occupied.filter (· != child) with
  | none => return { graph := g', notices := [⟨eventOf .move c position.name, g'⟩] }
  | some o => match g'.get? o with
    | none => return { graph := g', lost := some o }
    | some displaced =>
      let tail := (((g'.chainAt (some child)).getLast?).map (·.handle)).getD child
      let g' := (g'.modify tail fun n => { n with next := some o }).settle o ⟨tail, nextPosition⟩
      return { graph := g', notices :=
        [⟨eventOf .move displaced nextPosition, g'⟩, ⟨eventOf .move c position.name, g'⟩] }

def connectStatement (g : Graph) (parent : Handle) (slot : String) (child : Handle) :
    Except GraphError Edit := do
  let p ← g.node parent
  let occupied ← p.statementSlot slot
  g.attachChain p (.slot slot) occupied child

def connectNext (g : Graph) (previous child : Handle) : Except GraphError Edit := do
  let p ← g.node previous
  if !(← g.spec p).isStatement then throw (.noNext p.kind)
  g.attachChain p .next p.next child

def disconnect (g : Graph) (h : Handle) : Except GraphError Edit := do
  let n ← g.node h
  if n.parent.isNone then return { graph := g }
  g.checkPlace n
  let g := g.detach n
  return { graph := g, notices := [⟨eventOf .move n, g⟩] }

end Graph

end NqcBlocks
