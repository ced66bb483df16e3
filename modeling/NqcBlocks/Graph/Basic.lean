import NqcBlocks.Block.Catalog
import NqcBlocks.Graph.Error

/-!
# Block graphs

A graph holds the blocks of a program over a catalogue of kinds. Its cells are in order of creation:
the block with handle `h` is in the cell before the `h`-th boundary, and the next block goes into a new
cell at the end, so that handles grow with creation and none is issued twice. Deleting a block retires
its cell. A retired cell keeps the last state of its block, which a run that is already under way may
still be looking at (`lastState?`); everything else sees the blocks in the graph only (`get?`).
-/

namespace NqcBlocks

structure Cell where
  node : Node
  live : Bool := true
  deriving Repr, Inhabited

structure Graph where
  catalog : Catalog := .builtin
  cells : Array Cell := #[]
  deriving Repr, Inhabited

namespace Graph

def empty : Graph := {}

def cell? (g : Graph) (h : Handle) : Option Cell :=
  if h == 0 then none else g.cells[h - 1]?

def get? (g : Graph) (h : Handle) : Option Node :=
  (g.cell? h).bind fun c => if c.live then some c.node else none

def lastState? (g : Graph) (h : Handle) : Option Node :=
  (g.cell? h).map (·.node)

def follow? (g : Graph) (target : Option Handle) : Option Node :=
  target.bind g.get?

def contains (g : Graph) (h : Handle) : Bool := (g.get? h).isSome

def nodes (g : Graph) : List Node :=
  g.cells.toList.filterMap fun c => if c.live then some c.node else none

def size (g : Graph) : Nat := g.nodes.length

def nextHandle (g : Graph) : Handle := g.cells.size + 1

def reach (g : Graph) : Nat := g.cells.size + 1

def push (g : Graph) (node : Node) : Graph :=
  { g with cells := g.cells.push { node } }

def modify (g : Graph) (h : Handle) (f : Node → Node) : Graph :=
  if h == 0 then g
  else { g with cells := g.cells.modify (h - 1) fun c => { c with node := f c.node } }

def retire (g : Graph) (h : Handle) : Graph :=
  if h == 0 then g
  else { g with cells := g.cells.modify (h - 1) fun c => { c with live := false } }

def node (g : Graph) (h : Handle) : Except GraphError Node :=
  match g.get? h with
  | some n => .ok n
  | none => .error (.noBlock h)

def spec? (g : Graph) (n : Node) : Option BlockSpec := g.catalog.spec? n.kind

def spec (g : Graph) (n : Node) : Except GraphError BlockSpec :=
  match g.spec? n with
  | some s => .ok s
  | none => .error (.unregistered n.kind)

/-! ## Views of the changes -/

theorem cell?_modify (g : Graph) (h k : Handle) (f : Node → Node) :
    (g.modify h f).cell? k =
      if k = h then (g.cell? k).map fun c => { c with node := f c.node } else g.cell? k := by
  unfold modify cell?
  by_cases hh : h = 0
  · by_cases hk : k = h <;> simp_all
  · by_cases hk : k = 0
    · subst hk
      have : ¬ (0 = h) := fun e => hh e.symm
      simp [this]
    · simp only [beq_iff_eq, hh, hk, if_false, Array.getElem?_modify]
      by_cases e : k = h
      · simp [e]
      · have : ¬ (h - 1 = k - 1) := by grind
        simp [e, this]

theorem get?_modify (g : Graph) (h k : Handle) (f : Node → Node) :
    (g.modify h f).get? k = if k = h then (g.get? k).map f else g.get? k := by
  unfold get?
  rw [cell?_modify]
  by_cases e : k = h
  · subst e
    cases hc : g.cell? k with
    | none => simp
    | some c => cases hl : c.live <;> simp [hl]
  · simp [e]

theorem cell?_retire (g : Graph) (h k : Handle) :
    (g.retire h).cell? k =
      if k = h then (g.cell? k).map fun c => { c with live := false } else g.cell? k := by
  unfold retire cell?
  by_cases hh : h = 0
  · by_cases hk : k = h <;> simp_all
  · by_cases hk : k = 0
    · subst hk
      have : ¬ (0 = h) := fun e => hh e.symm
      simp [this]
    · simp only [beq_iff_eq, hh, hk, if_false, Array.getElem?_modify]
      by_cases e : k = h
      · simp [e]
      · have : ¬ (h - 1 = k - 1) := by grind
        simp [e, this]

theorem get?_retire (g : Graph) (h k : Handle) : (g.retire h).get? k = if k = h then none else g.get? k := by
  unfold get?
  rw [cell?_retire]
  by_cases e : k = h
  · subst e
    cases g.cell? k <;> simp
  · simp [e]

end Graph

end NqcBlocks
