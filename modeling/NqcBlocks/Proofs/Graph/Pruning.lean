import NqcBlocks.Proofs.Graph.Omission
import NqcBlocks.Proofs.Graph.Revision

/-!
# What disabled blocks leave of a tree

A disabled statement counts for nothing, with all that is plugged into it, and a disabled value counts for
nothing but the remarks on it and in it. `pruning` is what leaves them out of a tree: there are chains
without their disabled statements, and sockets empty that hold a disabled value without remarks. The blocks
are kept without their links, which the tree shows anyway.
-/

namespace NqcBlocks

open List Option Node

variable {g g' : Graph} {c h : Handle} {m n : Node}

theorem Node.content_content (n : Node) : n.content.content = n.content := by
  unfold content bare
  dsimp only
  rw [List.map_map, List.map_map]
  rfl

def Node.remarked (n : Node) : Bool := (n.comment.bind Json.truthy?).isSome

mutual
def BlockTree.remarked : BlockTree → Bool
  | .mk n _ operands _ => n.remarked || operandsRemarked operands
def operandsRemarked : Operands → Bool
  | [] => false
  | (_, none) :: rest => operandsRemarked rest
  | (_, some t) :: rest => t.remarked || operandsRemarked rest
end

def BlockTree.counts (t : BlockTree) : Bool := t.node.enabled || t.remarked

def pruning : Revision where
  node := Node.content
  keepsValue := BlockTree.counts
  keepsStatement := fun t => t.node.enabled

theorem BlockTree.counts_eq_false_iff {t : BlockTree} :
    t.counts = false ↔ t.node.enabled = false ∧ t.remarked = false := by
  rw [counts, Bool.or_eq_false_iff]

section Kept

variable {ρ : Revision}

mutual
theorem BlockTree.remarked_revise (hnode : ∀ n, (ρ.node n).remarked = n.remarked)
    (hvalue : ∀ t, ρ.keepsValue t = false → t.remarked = false) :
    ∀ t : BlockTree, (t.revise ρ).remarked = t.remarked
  | .mk n attached operands bodies => by
    rw [BlockTree.revise, BlockTree.remarked, BlockTree.remarked, operandsRemarked_revise hnode hvalue operands,
      hnode]
theorem operandsRemarked_revise (hnode : ∀ n, (ρ.node n).remarked = n.remarked)
    (hvalue : ∀ t, ρ.keepsValue t = false → t.remarked = false) :
    ∀ operands : Operands,
      operandsRemarked (reviseOperands ρ operands) = operandsRemarked operands
  | [] => rfl
  | (slot, none) :: rest => by
    rw [reviseOperands, operandsRemarked, operandsRemarked, operandsRemarked_revise hnode hvalue rest]
  | (slot, some t) :: rest => by
    rw [reviseOperands, operandsRemarked]
    cases hkept : ρ.keepsValue t with
    | true =>
      rw [if_pos rfl, operandsRemarked, t.remarked_revise hnode hvalue, operandsRemarked_revise hnode hvalue rest]
    | false =>
      rw [if_neg Bool.false_ne_true, operandsRemarked, operandsRemarked_revise hnode hvalue rest, hvalue t hkept,
        Bool.false_or]
end

end Kept

namespace Graph

namespace Omits

section Links

variable {b : Handle}

end Links

section Disabled

variable {b : Handle} {nb : Node}

end Disabled

end Omits

/-! ## Graphs of which the same is left -/

/-- **The same is left of two graphs** without the disabled blocks in them: of the blocks that stand on their
own, of the chains that these start, and of their bodies. -/
structure PrunesAlike (g g' : Graph) : Prop where
  forest : g.Forest
  forest' : g'.Forest
  tops : g'.topBlocks.map Node.content = g.topBlocks.map Node.content
  chain : ∀ {h n n'}, g.get? h = some n → g'.get? h = some n' →
    reviseChain pruning (g.headTrees h) = reviseChain pruning (g'.headTrees h)
  body : ∀ {h n n'}, g.get? h = some n → g'.get? h = some n' → ∀ k ∈ n.statementSlots.names,
    reviseChain pruning (g.trees (n.at? k)) = reviseChain pruning (g'.trees (n'.at? k))

theorem PrunesAlike.catalog_eq (h : g.PrunesAlike g') : g'.catalog = g.catalog :=
  h.forest'.builtin.trans h.forest.builtin.symm

end Graph

end NqcBlocks
