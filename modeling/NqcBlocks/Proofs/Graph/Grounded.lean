import Mathlib.Logic.Relation
import Mathlib.Order.Interval.Finset.Nat
import NqcBlocks.Proofs.Graph.Views

/-!
# Graphs that come to an end inwards

The tree of a block is cut off at a depth that is fixed beforehand. The cut is never made in a graph
that is **grounded**: its blocks carry their handles, and following what is plugged in never comes back
to a block. Nothing is asked of the kinds of the blocks or of where a block says that it is plugged in,
so this holds over any catalog.
-/

namespace NqcBlocks

open List Option

variable {f f' : Nat}

namespace Graph

def trees (g : Graph) (target : Option Handle) : List BlockTree := g.treesWithin g.depth target

theorem treesWithin_none (g : Graph) (fuel : Nat) : g.treesWithin fuel none = [] := by
  cases fuel <;> simp [treesWithin, follow?]

theorem trees_none (g : Graph) : g.trees none = [] := g.treesWithin_none _

def PluggedInto (g : Graph) (c h : Handle) : Prop := ∃ n, g.get? h = some n ∧ c ∈ n.targets

/-- **A graph is grounded** if its blocks carry their handles and no block is plugged into itself, at
whatever depth. -/
structure Grounded (g : Graph) : Prop where
  handle_eq : ∀ {h n}, g.get? h = some n → n.handle = h
  acyclic : ∀ h, ¬ Relation.TransGen g.PluggedInto h h

section Targets

variable {g : Graph} {h c : Handle} {n : Node}

theorem pluggedInto_of_valueSlot (hn : g.get? h = some n) {e : String × ValueSlot}
    (he : e ∈ n.valueSlots) (hc : e.2.target = some c) : g.PluggedInto c h :=
  ⟨n, hn, mem_append_left _ (mem_append_left _ (mem_filterMap.mpr ⟨e, he, hc⟩))⟩

theorem pluggedInto_of_statementSlot (hn : g.get? h = some n) {e : String × Option Handle}
    (he : e ∈ n.statementSlots) (hc : e.2 = some c) : g.PluggedInto c h :=
  ⟨n, hn, mem_append_left _ (mem_append_right _ (mem_filterMap.mpr ⟨e, he, hc⟩))⟩

theorem pluggedInto_of_next (hn : g.get? h = some n) (hc : n.next = some c) : g.PluggedInto c h :=
  ⟨n, hn, mem_append_right _ (mem_toList.mpr hc)⟩

end Targets

/-! ## What is below a block -/

open Classical in
noncomputable def underneath (g : Graph) (h : Handle) : Finset Handle :=
  (Finset.Icc 1 g.cells.size).filter fun c => Relation.TransGen g.PluggedInto c h

theorem mem_underneath {g : Graph} {c h : Handle} :
    c ∈ g.underneath h ↔ c ∈ Finset.Icc 1 g.cells.size ∧ Relation.TransGen g.PluggedInto c h := by
  simp only [underneath, Finset.mem_filter]

theorem mem_Icc_of_get? {g : Graph} {h : Handle} {n : Node} (hn : g.get? h = some n) :
    h ∈ Finset.Icc 1 g.cells.size := by
  have hlt := lt_nextHandle_of_get? hn
  exact Finset.mem_Icc.mpr ⟨hlt.1, Nat.le_of_lt_succ hlt.2⟩

namespace Grounded

variable {g : Graph} {h : Handle} {n : Node}

theorem card_underneath_lt (hg : g.Grounded) (hn : g.get? h = some n) : (g.underneath h).card < g.cells.size := by
  have hself : h ∉ g.underneath h := fun hmem => hg.acyclic h (mem_underneath.mp hmem).2
  have hlt : (g.underneath h).card < (Finset.Icc 1 g.cells.size).card :=
    Finset.card_lt_card ((Finset.ssubset_iff_of_subset fun x hx => (mem_underneath.mp hx).1).mpr
      ⟨h, mem_Icc_of_get? hn, hself⟩)
  rwa [Nat.card_Icc, Nat.add_sub_cancel] at hlt

theorem underneath_ssubset (hg : g.Grounded) {c : Handle} {m : Node} (hm : g.get? c = some m)
    (hc : g.PluggedInto c h) : g.underneath c ⊂ g.underneath h := by
  refine (Finset.ssubset_iff_of_subset fun x hx => ?_).mpr
    ⟨c, mem_underneath.mpr ⟨mem_Icc_of_get? hm, .single hc⟩, fun hmem => hg.acyclic c (mem_underneath.mp hmem).2⟩
  obtain ⟨hrange, hbelow⟩ := mem_underneath.mp hx
  exact mem_underneath.mpr ⟨hrange, hbelow.tail hc⟩

/-! ## Depth -/

theorem treesWithin_eq_of_get? {target : Option Handle} (h : ∀ {c m}, target = some c → g.get? c = some m →
      g.treesWithin f (some c) = g.treesWithin f' (some c)) :
    g.treesWithin f target = g.treesWithin f' target := by
  cases target with
  | none => rw [treesWithin_none, treesWithin_none]
  | some c =>
    cases hm : g.get? c with
    | some m => exact h rfl hm
    | none => cases f <;> cases f' <;> simp [treesWithin, follow?, hm]

theorem map_treeWithin_eq_of_get? {target : Option Handle}
    (h : ∀ {c m}, target = some c → g.get? c = some m → g.treeWithin f m = g.treeWithin f' m) :
    (g.follow? target).map (g.treeWithin f) = (g.follow? target).map (g.treeWithin f') := by
  cases hm : g.follow? target with
  | none => rfl
  | some m =>
    obtain ⟨c, hc, hget⟩ := Option.bind_eq_some_iff.mp hm
    rw [map_some, map_some, h hc hget]

theorem treeWithin_congr (hg : g.Grounded) (hn : g.get? h = some n) :
    (∀ {f f'}, 2 * (g.underneath h).card + 1 ≤ f → 2 * (g.underneath h).card + 1 ≤ f' →
        g.treeWithin f n = g.treeWithin f' n)
      ∧ ∀ {f f'}, 2 * (g.underneath h).card + 2 ≤ f → 2 * (g.underneath h).card + 2 ≤ f' →
        g.treesWithin f (some h) = g.treesWithin f' (some h) := by
  induction hd : (g.underneath h).card using Nat.strongRecOn generalizing h n with
  | _ d ih =>
    -- what is plugged in has fewer handles below it, and so needs two steps less
    have hchild : ∀ {c m}, g.get? c = some m → g.PluggedInto c h → (g.underneath c).card < d :=
      fun hm hc => hd ▸ Finset.card_lt_card (hg.underneath_ssubset hm hc)
    have htree : ∀ {f f'}, 2 * d + 1 ≤ f → 2 * d + 1 ≤ f' → g.treeWithin f n = g.treeWithin f' n := by
      intro f f' hf hf'
      obtain ⟨f, rfl⟩ : ∃ i, f = i + 1 := ⟨f - 1, by omega⟩
      obtain ⟨f', rfl⟩ : ∃ i, f' = i + 1 := ⟨f' - 1, by omega⟩
      rw [treeWithin, treeWithin]
      refine congrArg₂ (BlockTree.mk n _) (map_congr_left fun e he => congrArg (Prod.mk e.1) ?_)
        (map_congr_left fun e he => congrArg (Prod.mk e.1) ?_)
      · refine map_treeWithin_eq_of_get? fun {c m} hc hm => ?_
        have hlt := hchild hm (pluggedInto_of_valueSlot hn he hc)
        exact (ih _ hlt hm rfl).1 (by omega) (by omega)
      · refine treesWithin_eq_of_get? fun {c m} hc hm => ?_
        have hlt := hchild hm (pluggedInto_of_statementSlot hn he hc)
        exact (ih _ hlt hm rfl).2 (by omega) (by omega)
    refine ⟨htree, fun {f f'} hf hf' => ?_⟩
    obtain ⟨f, rfl⟩ : ∃ i, f = i + 1 := ⟨f - 1, by omega⟩
    obtain ⟨f', rfl⟩ : ∃ i, f' = i + 1 := ⟨f' - 1, by omega⟩
    simp only [treesWithin, follow?, bind_some, hn]
    refine congrArg₂ List.cons (htree (by omega) (by omega)) (treesWithin_eq_of_get? fun {c m} hc hm => ?_)
    have hlt := hchild hm (pluggedInto_of_next hn hc)
    exact (ih _ hlt hm rfl).2 (by omega) (by omega)

theorem treeWithin_eq_tree (hg : g.Grounded) (hn : g.get? h = some n) (hf : 2 * g.cells.size ≤ f) :
    g.treeWithin f n = g.tree n ∧ g.treesWithin f (some h) = g.trees (some h) := by
  have hlt := hg.card_underneath_lt hn
  obtain ⟨htree, htrees⟩ := hg.treeWithin_congr hn
  have hdepth : g.depth = 2 * g.cells.size + 2 := rfl
  exact ⟨htree (by omega) (by omega), htrees (by omega) (by omega)⟩

theorem tree_eq (hg : g.Grounded) (hn : g.get? h = some n) : g.tree n = .mk n true
      (n.valueSlots.map fun e => (e.1, (g.follow? e.2.target).map g.tree))
      (n.statementSlots.map fun e => (e.1, g.trees e.2)) := by
  have hlive : g.contains n.handle = true := contains_iff.mpr ⟨n, by rw [hg.handle_eq hn, hn]⟩
  show g.treeWithin ((2 * g.cells.size + 1) + 1) n = _
  rw [treeWithin, hlive]
  refine congrArg₂ (BlockTree.mk n true) (map_congr_left fun e _ => congrArg (Prod.mk e.1) ?_)
    (map_congr_left fun e _ => congrArg (Prod.mk e.1) ?_)
  · exact map_treeWithin_eq_of_get? fun _ hm => (hg.treeWithin_eq_tree hm (by omega)).1
  · exact treesWithin_eq_of_get? fun _ hm => (hg.treeWithin_eq_tree hm (by omega)).2

theorem trees_eq (hg : g.Grounded) (hn : g.get? h = some n) : g.trees (some h) = g.tree n :: g.trees n.next := by
  have hfollow : g.follow? (some h) = some n := hn
  show g.treesWithin ((2 * g.cells.size + 1) + 1) (some h) = _
  rw [treesWithin, hfollow]
  exact congrArg₂ List.cons (hg.treeWithin_eq_tree hn (by omega)).1
    (treesWithin_eq_of_get? fun _ hm => (hg.treeWithin_eq_tree hm (by omega)).2)

theorem headTrees_eq (hg : g.Grounded) (hn : g.get? h = some n) : g.headTrees h = g.trees (some h) := by
  unfold headTrees
  rw [lastState?_of_get? hn, hg.trees_eq hn]
  rfl

/-! ## Chains -/

theorem chainWithin_congr (hg : g.Grounded) (hn : g.get? h = some n)
    (hf : (g.underneath h).card < f) (hf' : (g.underneath h).card < f') :
    g.chainWithin f (some h) = g.chainWithin f' (some h) := by
  induction f generalizing h n f' with
  | zero => cases hf
  | succ f ih =>
    obtain ⟨f', rfl⟩ : ∃ i, f' = i + 1 := ⟨f' - 1, by omega⟩
    simp only [chainWithin, follow?, bind_some, hn]
    refine congrArg (n :: ·) ?_
    cases hnext : n.next with
    | none => cases f <;> cases f' <;> rfl
    | some c =>
      cases hm : g.get? c with
      | none => cases f <;> cases f' <;> simp [chainWithin, follow?, hm]
      | some m =>
        have hlt := Finset.card_lt_card (hg.underneath_ssubset hm (pluggedInto_of_next hn hnext))
        exact ih hm (by omega) (by omega)

theorem chainAt_eq (hg : g.Grounded) (hn : g.get? h = some n) : g.chainAt (some h) = n :: g.chainAt n.next := by
  have hfollow : g.follow? (some h) = some n := hn
  show g.chainWithin (g.cells.size + 1) (some h) = n :: g.chainWithin (g.cells.size + 1) n.next
  rw [chainWithin, hfollow]
  refine congrArg (n :: ·) ?_
  cases hnext : n.next with
  | none => cases g.cells.size <;> rfl
  | some c =>
    cases hm : g.get? c with
    | none => cases g.cells.size <;> simp [chainWithin, follow?, hm]
    | some m =>
      have hlt := hg.card_underneath_lt hm
      exact hg.chainWithin_congr hm hlt (by omega)

end Grounded

end Graph

end NqcBlocks
