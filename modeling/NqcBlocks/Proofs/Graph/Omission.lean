import NqcBlocks.Proofs.Graph.Splicing

/-!
# Leaving a block out

A block that is plugged in can be left out of a graph: it goes with everything that is plugged into it, and
what comes after it takes its place. For a statement this takes three edits (`Graph.withoutStatement`): take
out what comes after it, delete it, and put what was taken out at its place. A value has nothing after it and
is just deleted.
-/

namespace NqcBlocks

namespace Graph

def ChainPosition.ofName (name : String) : ChainPosition :=
  if name = nextPosition then .next else .slot name

/-- **A graph with a block left out**: what stays is plugged in where it was, and what came after the block
is where the block was. -/
structure Omits (g : Graph) (b : Handle) (g' : Graph) : Prop where
  forest : g'.Forest
  next : g'.nextHandle = g.nextHandle
  gone : g'.get? b = none
  bare : ∀ {h n'}, g'.get? h = some n' → ∃ n, g.get? h = some n ∧ n'.bare = n.bare
  parent : ∀ {h}, g'.contains h = true → g'.parent? h
    = if g.parent? h = some (some ⟨b, nextPosition⟩) then g.parent? b else g.parent? h
  inside : ∀ {p h}, g'.contains p.owner = true → g.at? p = some h → h ≠ b → g'.contains h = true
  after : ∀ {h}, g.at? ⟨b, nextPosition⟩ = some h → g'.contains h = true
  top : ∀ {h}, g.parent? h = some none → g'.contains h = true

namespace Forest

variable {g : Graph} {b : Handle} {q : Place}

end Forest

namespace Omits

variable {g g' : Graph} {b : Handle}

theorem contains_of_path (ho : g.Omits b g') (hg : g.Forest) {h : Handle} {l : List Handle}
    (hl : g.Path h l) (hb : b ∉ l) : g'.contains h = true := by
  induction hl with
  | top hp => exact ho.top hp
  | up hp hl ih =>
    rw [List.mem_cons, not_or] at hb
    exact ho.inside (ih hb.2) (hg.linked.mp hp) (Ne.symm hb.1)

theorem path (ho : g.Omits b g') (hg : g.Forest) (hlast : g.at? ⟨b, nextPosition⟩ = none) {h : Handle}
    {l : List Handle} (hl : g.Path h l) (hb : b ∉ l) : g'.Path h l := by
  refine hl.congr fun x hx => ?_
  obtain ⟨l₁, l₂, rfl, hl₂⟩ := hl.exists_suffix hx
  have hx' := ho.contains_of_path hg hl₂ fun h => hb (List.mem_append_right l₁ h)
  rw [ho.parent hx', if_neg]
  intro hp
  rw [hg.linked.mp hp] at hlast
  cases hlast

end Omits

namespace Forest

variable {g : Graph} {b c : Handle} {n m : Node} {q : Place}

end Forest

end Graph

end NqcBlocks
