import NqcBlocks.Proofs.Graph.Runs

/-!
# Blocks that stand on their own

A program is drawn as several pieces next to each other, and the block at the top of a piece is plugged in
nowhere. This module follows which blocks those are (`Graph.IsRoot`) while one of them is plugged in, and
what is where afterwards. A new block is one more of them. Plugging in a value makes one less, unless there
was a value in the socket: that one stands on its own from then on. Putting a chain somewhere always makes
one less, since the statements that were there follow the chain. An edit that puts a block somewhere says in
both cases what happens to what was there (`Graph.Puts`), so that one lemma covers them.
-/

namespace NqcBlocks

namespace Graph

variable {g : Graph} {x child parent : Handle} {slot : String} {e : Edit}

def IsRoot (g : Graph) (h : Handle) : Prop := g.parent? h = some none

theorem isRoot_iff : g.IsRoot x ↔ ∃ n, g.get? x = some n ∧ n.parent = none := Option.map_eq_some_iff

theorem IsRoot.lt_nextHandle (hx : g.IsRoot x) : x < g.nextHandle := by
  obtain ⟨n, hn, -⟩ := isRoot_iff.mp hx
  exact (lt_nextHandle_of_get? hn).2

theorem isRoot_push {n : Node} (hn : n.parent = none) : (g.push n).IsRoot x ↔ g.IsRoot x ∨ x = g.nextHandle := by
  unfold IsRoot parent?
  rw [get?_push]
  by_cases hx : x = g.nextHandle
  · rw [if_pos hx, Option.map_some, hn]
    exact iff_of_true rfl (.inr hx)
  · rw [if_neg hx, or_iff_left hx]

/-! ## Plugging in a block that stands on its own -/

theorem Forest.puts_connectStatement (hg : g.Forest) (he : g.connectStatement parent slot child = .ok e) :
    ∃ tail, g.Puts child ⟨parent, slot⟩ (some ⟨tail, nextPosition⟩) (fun _ _ => e.graph) e := by
  obtain ⟨p, hp, hpos, hput⟩ := hg.attachChain_of_connectStatement he
  obtain rfl := hg.handle_eq hp
  obtain ⟨-, tail, -, hputs⟩ := hg.puts_attachChain hp hpos hput
  exact ⟨tail, hputs⟩

theorem Forest.puts_connectNext (hg : g.Forest) (he : g.connectNext parent child = .ok e) :
    ∃ tail, g.Puts child ⟨parent, nextPosition⟩ (some ⟨tail, nextPosition⟩) (fun _ _ => e.graph) e := by
  obtain ⟨p, hp, hpos, hput⟩ := hg.attachChain_of_connectNext he
  obtain rfl := hg.handle_eq hp
  obtain ⟨-, tail, -, hputs⟩ := hg.puts_attachChain hp hpos hput
  exact ⟨tail, hputs⟩

namespace Puts

variable {place : Place} {after : Option Place} {seen : Node → Node → Graph}

theorem isRoot_iff (h : g.Puts child place after seen e) (hg : g.Forest) (hc : g.IsRoot child) (x : Handle) :
    e.graph.IsRoot x ↔ g.IsRoot x ∧ x ≠ child ∨ after = none ∧ g.at? place = some x := by
  have hplaced : g.at? place = some x → ¬ g.IsRoot x := fun hx hroot => by
    cases (hg.linked.mpr hx).symm.trans hroot
  have hne : g.at? place = some x → x ≠ child := fun hx e => hplaced hx (e ▸ hc)
  unfold IsRoot at *
  rw [h.parent?]
  by_cases hx : x = child <;> by_cases hat : g.at? place = some x <;> cases after <;> simp_all

theorem at?_place (h : g.Puts child place after seen e) : e.graph.at? place = some child :=
  h.forest.linked.mp (by rw [h.parent?, if_pos rfl])

theorem at?_of_ne (h : g.Puts child place after seen e) (hg : g.Forest) (hc : g.IsRoot child)
    {q : Place} (hq : q ≠ place) (hafter : after = some q → g.at? place = none) : e.graph.at? q = g.at? q := by
  ext y
  rw [← h.forest.linked, ← hg.linked, h.parent?]
  split
  · next hy =>
    rw [hy, show g.parent? child = some none from hc]
    simp [hq.symm]
  · split
    · next hat =>
      rw [hg.linked.mpr hat, Option.some.injEq, Option.some.injEq, Option.some.injEq]
      refine iff_of_false (fun e => ?_) hq.symm
      cases hat.symm.trans (hafter e)
    · rfl

end Puts

end Graph

end NqcBlocks
