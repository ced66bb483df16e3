import NqcBlocks.Proofs.Graph.Tree

/-!
# Trees with other blocks

What is said about programs often compares two trees: one with other names in its blocks, without their
remarks, or without the blocks that count for nothing. A `Revision` says what becomes of a block, and which
values and statements are kept; `BlockTree.revise` carries it through a tree.
-/

namespace NqcBlocks

open List Table BlockTree

/-- **A way to revise trees**: what becomes of a block, and which values and statements are kept. -/
structure Revision where
  node : Node → Node
  keepsValue : BlockTree → Bool := fun _ => true
  keepsStatement : BlockTree → Bool := fun _ => true

mutual
def BlockTree.revise (ρ : Revision) : BlockTree → BlockTree
  | .mk n attached operands bodies =>
    .mk (ρ.node n) attached (reviseOperands ρ operands) (reviseBodies ρ bodies)
def reviseOperands (ρ : Revision) :
    Operands → Operands
  | [] => []
  | (slot, none) :: rest => (slot, none) :: reviseOperands ρ rest
  | (slot, some t) :: rest =>
    (slot, if ρ.keepsValue t then some (t.revise ρ) else none) :: reviseOperands ρ rest
def reviseBodies (ρ : Revision) : Bodies → Bodies
  | [] => []
  | (slot, chain) :: rest => (slot, reviseChain ρ chain) :: reviseBodies ρ rest
def reviseChain (ρ : Revision) : List BlockTree → List BlockTree
  | [] => []
  | t :: rest => if ρ.keepsStatement t then t.revise ρ :: reviseChain ρ rest else reviseChain ρ rest
end

section Trees

variable {ρ : Revision}

@[simp] theorem BlockTree.node_revise (t : BlockTree) : (t.revise ρ).node = ρ.node t.node := by
  cases t
  rfl

theorem BlockTree.attached_revise (t : BlockTree) : (t.revise ρ).attached = t.attached := by
  cases t
  rfl

theorem BlockTree.operands_revise (t : BlockTree) : (t.revise ρ).operands = reviseOperands ρ t.operands := by
  cases t
  rfl

theorem reviseOperands_eq_map (operands : Operands) : reviseOperands ρ operands
      = operands.map fun e => (e.1, (e.2.filter ρ.keepsValue).map (revise ρ)) := by
  induction operands with
  | nil => rfl
  | cons e rest ih =>
    obtain ⟨slot, _ | t⟩ := e
    · rw [reviseOperands, ih]
      rfl
    · rw [reviseOperands, ih, map_cons, Option.filter_some]
      split <;> rfl

theorem reviseChain_eq_map (chain : List BlockTree) :
    reviseChain ρ chain = (chain.filter ρ.keepsStatement).map (revise ρ) := by
  induction chain with
  | nil => rfl
  | cons t rest ih =>
    rw [reviseChain, ih, filter_cons]
    split <;> rfl

theorem reviseBodies_eq_map (bodies : Bodies) :
    reviseBodies ρ bodies = bodies.map fun e => (e.1, reviseChain ρ e.2) := by
  induction bodies with
  | nil => rfl
  | cons e rest ih =>
    rw [reviseBodies, ih]
    rfl

theorem get?_reviseOperands (slot : String) (operands : Operands) :
    get? slot (reviseOperands ρ operands) = (get? slot operands).map fun o =>
      (o.filter ρ.keepsValue).map (revise ρ) := by
  rw [reviseOperands_eq_map]
  exact get?_mapValues (fun _ (o : Option BlockTree) => (o.filter ρ.keepsValue).map (revise ρ)) slot operands

theorem get?_reviseBodies (slot : String) (bodies : Bodies) :
    get? slot (reviseBodies ρ bodies) = (get? slot bodies).map (reviseChain ρ) := by
  rw [reviseBodies_eq_map]
  exact get?_mapValues (fun _ => reviseChain ρ) slot bodies

theorem reviseChain_append (chain chain' : List BlockTree) :
    reviseChain ρ (chain ++ chain') = reviseChain ρ chain ++ reviseChain ρ chain' := by
  rw [reviseChain_eq_map, reviseChain_eq_map, reviseChain_eq_map, filter_append, map_append]

theorem reviseChain_flatten (chains : List (List BlockTree)) :
    reviseChain ρ chains.flatten = (chains.map (reviseChain ρ)).flatten := by
  induction chains with
  | nil => rfl
  | cons chain chains ih => rw [flatten_cons, reviseChain_append, ih, map_cons, flatten_cons]

end Trees

/-! ## Revisions of single blocks -/

def Revision.ofNode (φ : Node → Node) : Revision := { node := φ }

section OfNode

variable {φ : Node → Node}

theorem reviseOperands_cons_some (slot : String) (t : BlockTree) (rest : Operands) :
    reviseOperands (.ofNode φ) ((slot, some t) :: rest)
      = (slot, some (t.revise (.ofNode φ))) :: reviseOperands (.ofNode φ) rest := by
  rw [reviseOperands]
  rfl

theorem reviseChain_cons (t : BlockTree) (rest : List BlockTree) :
    reviseChain (.ofNode φ) (t :: rest) = t.revise (.ofNode φ) :: reviseChain (.ofNode φ) rest := by
  rw [reviseChain]
  rfl

mutual
theorem BlockTree.revise_id : ∀ t : BlockTree, t.revise (.ofNode id) = t
  | .mk n attached operands bodies => by
    rw [revise, reviseOperands_id operands, reviseBodies_id bodies]
    rfl
theorem reviseOperands_id : ∀ operands : Operands,
    reviseOperands (.ofNode id) operands = operands
  | [] => rfl
  | (slot, none) :: rest => by rw [reviseOperands, reviseOperands_id rest]
  | (slot, some t) :: rest => by rw [reviseOperands_cons_some, t.revise_id, reviseOperands_id rest]
theorem reviseBodies_id : ∀ bodies : Bodies, reviseBodies (.ofNode id) bodies = bodies
  | [] => rfl
  | (slot, chain) :: rest => by rw [reviseBodies, reviseChain_id chain, reviseBodies_id rest]
theorem reviseChain_id : ∀ chain : List BlockTree, reviseChain (.ofNode id) chain = chain
  | [] => rfl
  | t :: rest => by rw [reviseChain_cons, t.revise_id, reviseChain_id rest]
end

/-- **A change of blocks that leaves the links alone.** -/
structure KeepsLinks (φ : Node → Node) : Prop where
  handle : ∀ n, (φ n).handle = n.handle
  valueSlots : ∀ n, (φ n).valueSlots = n.valueSlots
  statementSlots : ∀ n, (φ n).statementSlots = n.statementSlots
  next : ∀ n, (φ n).next = n.next

namespace Graph

variable {g g' : Graph}

theorem follow?_of_get? (hget : ∀ h, g'.get? h = (g.get? h).map φ) (target : Option Handle) :
    g'.follow? target = (g.follow? target).map φ := by
  cases target with
  | none => rfl
  | some h => exact hget h

theorem contains_of_get? (hφ : KeepsLinks φ) (hget : ∀ h, g'.get? h = (g.get? h).map φ) (n : Node) :
    g'.contains (φ n).handle = g.contains n.handle := by
  unfold contains
  rw [hφ.handle, hget, Option.isSome_map]

mutual
theorem treeWithin_revise (hφ : KeepsLinks φ) (hget : ∀ h, g'.get? h = (g.get? h).map φ) : ∀ (fuel : Nat) (n : Node),
      g'.treeWithin fuel (φ n) = (g.treeWithin fuel n).revise (.ofNode φ)
  | 0, n => by
    rw [treeWithin, treeWithin, revise, contains_of_get? hφ hget]
    rfl
  | fuel + 1, n => by
    rw [treeWithin, treeWithin, revise, reviseOperands_eq_map, reviseBodies_eq_map,
      map_map, map_map, contains_of_get? hφ hget, hφ.valueSlots, hφ.statementSlots]
    refine congr (congrArg _ (map_congr_left fun e _ => ?_)) (map_congr_left fun e _ => congrArg (Prod.mk e.1) ?_)
    · show (e.1, (g'.follow? e.2.target).map (g'.treeWithin fuel))
        = (e.1, (((g.follow? e.2.target).map (g.treeWithin fuel)).filter _).map _)
      rw [follow?_of_get? hget]
      cases g.follow? e.2.target with
      | none => rfl
      | some m => exact congrArg (fun t => (e.1, some t)) (treeWithin_revise hφ hget fuel m)
    · exact treesWithin_revise hφ hget fuel e.2
theorem treesWithin_revise (hφ : KeepsLinks φ) (hget : ∀ h, g'.get? h = (g.get? h).map φ) :
    ∀ (fuel : Nat) (target : Option Handle),
      g'.treesWithin fuel target = reviseChain (.ofNode φ) (g.treesWithin fuel target)
  | 0, _ => by rw [treesWithin, treesWithin, reviseChain]
  | fuel + 1, target => by
    rw [treesWithin, treesWithin, follow?_of_get? hget]
    cases g.follow? target with
    | none => rw [Option.map_none, reviseChain]
    | some n =>
      simp only [Option.map_some, reviseChain_cons, treeWithin_revise hφ hget fuel n, hφ.next,
        treesWithin_revise hφ hget fuel n.next]
end

end Graph

end OfNode

end NqcBlocks
