import NqcBlocks.Proofs.Graph.Partition
import NqcBlocks.Proofs.Graph.Tree

/-!
# What a view of the blocks shows

The items of a view stand in the order in which the blocks of a graph are listed (`blocks_ofGraph`), although a
view shows the blocks of a chain beside each other and the listing takes what comes next for something that is
plugged in. What holds the item of a block (`Item.Above`) is read off the place where its chain starts
(`Graph.StartsAt`).
-/

namespace NqcBlocks

open List

variable {g : Graph} {n : Node} {h : Handle}

/-- **The place where the chain of a block starts**, if it is not a block that stands on its own. -/
inductive Graph.StartsAt (g : Graph) : Handle → Option Place → Prop
  | top {h : Handle} : g.parent? h = some none → StartsAt g h none
  | slot {h : Handle} {p : Place} : g.parent? h = some (some p) → p.connection ≠ nextPosition →
      StartsAt g h (some p)
  | next {h o : Handle} {start : Option Place} : g.parent? h = some (some ⟨o, nextPosition⟩) →
      StartsAt g o start → StartsAt g h start

theorem Graph.StartsAt.unique {start start' : Option Place} (hs : g.StartsAt h start)
    (hs' : g.StartsAt h start') : start = start' := by
  induction hs with
  | top hp =>
    cases hs' with
    | top => rfl
    | slot hp' | next hp' => cases hp.symm.trans hp'
  | slot hp hslot =>
    cases hs' with
    | top hp' => cases hp.symm.trans hp'
    | slot hp' =>
      cases hp.symm.trans hp'
      rfl
    | next hp' =>
      cases hp.symm.trans hp'
      exact absurd rfl hslot
  | next hp _ ih =>
    cases hs' with
    | top hp' => cases hp.symm.trans hp'
    | slot hp' hslot =>
      cases hp.symm.trans hp'
      exact absurd rfl hslot
    | next hp' hs' =>
      cases hp.symm.trans hp'
      exact ih hs'

namespace Viewer

open Graph

/-! ## Items -/

theorem chainItems_eq_map (ts : List BlockTree) : chainItems ts = ts.map itemOf := by
  induction ts with
  | nil => rfl
  | cons t ts ih => rw [chainItems, ih, map_cons]

theorem itemsBlocks_eq_flatMap (items : List Item) : itemsBlocks items = items.flatMap itemBlocks := by
  induction items with
  | nil => rfl
  | cons item items ih => rw [itemsBlocks, ih, flatMap_cons]

mutual
theorem itemBlocks_itemOf : ∀ t : BlockTree, itemBlocks (itemOf t) = t.nodes.map (·.handle)
  | .mk n _ operands bodies => by
    rw [itemOf, itemBlocks, itemsBlocks_eq_flatMap, flatMap_append, ← itemsBlocks_eq_flatMap,
      ← itemsBlocks_eq_flatMap, itemsBlocks_operandItems n operands, itemsBlocks_bodyItems bodies, BlockTree.nodes,
      map_cons, map_append]
    rfl
theorem itemsBlocks_operandItems (n : Node) : ∀ operands : Operands,
    itemsBlocks (operandItems n operands) = (operandNodes operands).map (·.handle)
  | [] => rfl
  | (_, none) :: rest => itemsBlocks_operandItems n rest
  | (slot, some t) :: rest => by
    rw [operandItems, itemsBlocks, itemsBlocks_operandItems n rest, slotItem, itemBlocks, itemsBlocks, itemsBlocks,
      itemBlocks_itemOf t, operandNodes, map_append, append_nil]
    rfl
theorem itemsBlocks_bodyItems : ∀ bodies : Bodies,
    itemsBlocks (bodyItems bodies) = (bodyNodes bodies).map (·.handle)
  | [] => rfl
  | (slot, chain) :: rest => by
    rw [bodyItems, itemsBlocks, itemsBlocks_bodyItems rest, slotItem, itemBlocks, itemsBlocks_chainItems chain,
      bodyNodes, map_append]
    rfl
theorem itemsBlocks_chainItems : ∀ chain : List BlockTree,
    itemsBlocks (chainItems chain) = (chainNodes chain).map (·.handle)
  | [] => rfl
  | t :: rest => by
    rw [chainItems, itemsBlocks, itemBlocks_itemOf t, itemsBlocks_chainItems rest, chainNodes, map_append]
end

/-- **The item of a socket**, with the blocks of the chain that starts there. -/
def socketItem (g : Graph) (n : Node) (slot : String) (isValue : Bool) (target : Option Handle) : Item :=
  if isValue && (g.trees target).isEmpty then emptyItem n slot
  else slotItem slot ((g.trees target).map itemOf)

variable (hg : g.Forest)
include hg

/-- **A view lists the blocks in order**: those that stand on their own, each before what is below it. -/
theorem blocks_ofGraph (title : String) : (BlockView.ofGraph g title).blocks
    = (g.topBlocks.flatMap g.subtree).map (·.handle) := by
  rw [BlockView.ofGraph, BlockView.blocks, itemBlocks, itemsBlocks_eq_flatMap, graphItems, flatMap_assoc, map_flatMap]
  refine flatMap_congr fun t ht => ?_
  have ht := (hg.mem_topBlocks_iff.mp ht).1
  rw [← itemsBlocks_eq_flatMap, itemsBlocks_chainItems, ← hg.chainNodes_trees ht, hg.trees_eq ht]
  rfl

/-! ## What holds an item -/

theorem itemOf_tree (hn : g.get? h = some n) : itemOf (g.tree n) = .mk (blockLabel n).firstLine (some n.handle)
    (n.valueSlots.map (fun e => socketItem g n e.1 true e.2.target)
      ++ n.statementSlots.map fun e => socketItem g n e.1 false e.2) := by
  obtain ⟨-, spec, hc⟩ := hg.sound hn
  have hoperands : ∀ slots ⊆ n.valueSlots,
      operandItems n (slots.map fun e => (e.1, (g.follow? e.2.target).map g.tree))
        = slots.map fun e => socketItem g n e.1 true e.2.target := by
    intro slots hsub
    induction slots with
    | nil => rfl
    | cons e slots ih =>
      obtain ⟨he, hsub⟩ := List.cons_subset.mp hsub
      rw [map_cons, map_cons, ← ih hsub]
      rw [socketItem, hg.trees_of_valueSlot hn he]
      cases (g.follow? e.2.target).map g.tree <;> rfl
  have hbodies : ∀ slots : List (String × Option Handle), bodyItems (slots.map fun e => (e.1, g.trees e.2))
      = slots.map fun e => socketItem g n e.1 false e.2 := by
    intro slots
    induction slots with
    | nil => rfl
    | cons e slots ih =>
      rw [map_cons, bodyItems, ih, chainItems_eq_map]
      rfl
  rw [hg.tree_eq hn, itemOf, hoperands _ (List.Subset.refl _), hbodies]

theorem exists_socketItem {c : Item} (hn : g.get? h = some n) (hc : c ∈ (itemOf (g.tree n)).children) :
    ∃ slot isValue, slot ≠ nextPosition ∧ c = socketItem g n slot isValue (n.at? slot) := by
  obtain ⟨-, spec, hconforms⟩ := hg.sound hn
  rw [itemOf_tree hg hn, Item.children, mem_append, mem_map, mem_map] at hc
  rcases hc with ⟨e, he, rfl⟩ | ⟨e, he, rfl⟩
  · have hget := (Table.get?_eq_some_iff hconforms.nodup_valueSlots).mpr he
    exact ⟨e.1, true, hconforms.ne_nextPosition hget, by rw [Forest.at?_of_mem_valueSlots hconforms he]⟩
  · have hpos : ChainPosition.IsOf n (.slot e.1) := Table.contains_iff.mpr (mem_map_of_mem he)
    exact ⟨e.1, false, (ChainPosition.slot_of_isOf hconforms hpos).1, by
      rw [Forest.at?_of_mem_statementSlots hconforms he]⟩

theorem startsAt_of_mem_trees (hn : g.get? h = some n) {start : Option Place} (hs : g.StartsAt h start)
    {t : BlockTree} (ht : t ∈ g.trees (some h)) :
    ∃ m, g.get? m.handle = some m ∧ t = g.tree m ∧ g.StartsAt m.handle start := by
  refine hg.induction_inwards (P := fun n => ∀ {h}, g.get? h = some n → g.StartsAt h start →
    t ∈ g.trees (some h) → ∃ m, g.get? m.handle = some m ∧ t = g.tree m ∧ g.StartsAt m.handle start) ?_ hn hn hs ht
  intro _ n _ ih h hn hs ht
  have hh := hg.handle_eq hn
  rw [hg.trees_eq hn, mem_cons] at ht
  rcases ht with rfl | ht
  · exact ⟨n, hh.symm ▸ hn, rfl, hh.symm ▸ hs⟩
  · cases hnext : n.next with
    | none =>
      rw [hnext, trees_none] at ht
      cases ht
    | some c =>
      rw [hnext] at ht
      obtain ⟨m, hm, hp, -⟩ := hg.exists_child hn (n.at?_nextPosition.trans hnext)
      exact ih (n.at?_nextPosition.trans hnext) hm hm (.next (by rw [parent?_of_get? hm, hp]) hs) ht

omit hg

/-- **The item above another one** in the tree below a root. -/
inductive Item.Above (root : Item) : Item → Item → Prop
  | top {c : Item} : c ∈ root.children → Above root root c
  | inner {p c d : Item} : Above root p c → d ∈ c.children → Above root c d

/-- **The item of a place**: that of a socket, below the item of its block. The root stands for no place. -/
def Item.StandsFor (root p : Item) : Option Place → Prop
  | none => p = root
  | some q => ∃ x items, root.Above x p ∧ x.block = some q.owner ∧ p = slotItem q.connection items

theorem above_cases (hg : g.Forest) {title : String} {p c : Item} (h : (BlockView.ofGraph g title).root.Above p c) :
    (∃ m start, g.get? m.handle = some m ∧ c = itemOf (g.tree m) ∧ g.StartsAt m.handle start
      ∧ (BlockView.ofGraph g title).root.StandsFor p start)
    ∨ ∃ n slot isValue, g.get? n.handle = some n ∧ p = itemOf (g.tree n) ∧ slot ≠ nextPosition
      ∧ c = socketItem g n slot isValue (n.at? slot) := by
  induction h with
  | @top c hc =>
    obtain ⟨t, ht, hc⟩ := mem_flatMap.mp hc
    obtain ⟨hget, hp⟩ := (hg.mem_topBlocks_iff).mp ht
    have hchain : chainItems (g.chainTrees t) = (g.trees (some t.handle)).map itemOf := by
      rw [chainItems_eq_map, hg.trees_eq hget]
      rfl
    rw [hchain] at hc
    obtain ⟨s, hs, rfl⟩ := mem_map.mp hc
    obtain ⟨m, hm, rfl, hstart⟩ := startsAt_of_mem_trees hg hget (.top (by rw [parent?_of_get? hget, hp])) hs
    exact .inl ⟨m, none, hm, rfl, hstart, rfl⟩
  | @inner p c d habove hd ih =>
    rcases ih with ⟨m, start, hm, rfl, -⟩ | ⟨n, slot, isValue, hn, rfl, hslot, rfl⟩
    · obtain ⟨slot, isValue, hslot, rfl⟩ := exists_socketItem hg hm hd
      exact .inr ⟨m, slot, isValue, hm, rfl, hslot, rfl⟩
    · refine .inl ?_
      unfold socketItem at hd habove ⊢
      split at hd
      · cases hd
      · next hsplit =>
        rw [if_neg hsplit] at habove ⊢
        obtain ⟨s, hs, rfl⟩ := mem_map.mp hd
        cases hat : n.at? slot with
        | none =>
          rw [hat, trees_none] at hs
          cases hs
        | some x =>
          rw [hat] at hs habove
          obtain ⟨m, hm, hp, -⟩ := hg.exists_child hn hat
          obtain ⟨m', hm', rfl, hstart⟩ := startsAt_of_mem_trees hg hm
            (.slot (by rw [parent?_of_get? hm, hp]) hslot) hs
          refine ⟨m', _, hm', rfl, hstart, _, _, habove, ?_, rfl⟩
          rw [itemOf_tree hg hn]
          rfl

/-- **A view shows every block once.** Its blocks, in the order of the tree, are the blocks that stand on their
own, each with everything below it; they are the blocks of the graph, none of them twice. The item above that of a
block is the root, if its chain starts with a block that stands on its own, and otherwise that of the socket where
the chain starts. -/
theorem blocks_shown_once (hg : g.Reachable) (title : String) :
    let view := BlockView.ofGraph g title
    (∃ below : Node → List Node, (∀ t ∈ g.topBlocks, g.descendants t.handle = .ok (below t))
      ∧ view.blocks = (g.topBlocks.flatMap below).map (·.handle))
    ∧ view.blocks.Nodup ∧ (∀ h, h ∈ view.blocks ↔ ∃ n, g.get? h = some n)
    ∧ ∀ {p c h}, view.root.Above p c → c.block = some h →
      (∃ start, g.StartsAt h start) ∧ ∀ start, g.StartsAt h start → view.root.StandsFor p start := by
  have hf := hg.forest
  intro view
  have hblocks : view.blocks = (g.topBlocks.flatMap g.subtree).map (·.handle) := blocks_ofGraph hf title
  refine ⟨⟨g.subtree, fun t ht => hf.descendants_eq (hf.parent?_of_mem_topBlocks ht).1, hblocks⟩,
    hblocks ▸ hf.nodup_topBlocks_subtrees, ?_, ?_⟩
  · intro h
    simp only [hblocks, List.mem_map, hf.mem_topBlocks_subtrees_iff, hf.mem_nodes_iff_get?]
    constructor
    · rintro ⟨n, hn, rfl⟩
      exact ⟨n, hn⟩
    · rintro ⟨n, hn⟩
      have hh := hf.handle_eq hn
      exact ⟨n, hh.symm ▸ hn, hh⟩
  · intro p c h habove hblock
    rcases above_cases hf habove with ⟨m, start, hm, rfl, hstart, hstands⟩ | ⟨n, slot, isValue, -, -, -, rfl⟩
    · rw [itemOf_tree hf hm] at hblock
      obtain rfl := Option.some.inj hblock
      exact ⟨⟨start, hstart⟩, fun start' hstart' => hstart.unique hstart' ▸ hstands⟩
    · unfold socketItem at hblock
      split at hblock <;> cases hblock

/-- The sound comes after the loop, whose chain starts in the task. -/
theorem blocks_shown_once_countedLoop : countedLoop.Reachable
    ∧ (BlockView.ofGraph countedLoop "loop").blocks = [1, 3, 5, 4, 2, 6]
    ∧ (BlockView.ofGraph countedLoop "loop").blocks.Nodup
    ∧ ∀ {p c}, (BlockView.ofGraph countedLoop "loop").root.Above p c → c.block = some 2 →
      ∃ items, p = slotItem "STATEMENTS" items := by
  obtain ⟨-, hnodup, -, hparents⟩ := blocks_shown_once reachable_countedLoop "loop"
  refine ⟨reachable_countedLoop, by decide, hnodup, fun habove hblock => ?_⟩
  obtain ⟨-, hstands⟩ := hparents habove hblock
  have hstart : countedLoop.StartsAt 2 (some ⟨1, "STATEMENTS"⟩) :=
    .next (o := 3) (by decide) (.slot (by decide) (by decide))
  obtain ⟨x, items, -, -, hp⟩ := hstands _ hstart
  exact ⟨items, hp⟩

end Viewer

end NqcBlocks
