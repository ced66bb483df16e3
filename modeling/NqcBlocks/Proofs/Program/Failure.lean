import NqcBlocks.Proofs.Program.Sections

/-!
# When no program can be generated

A program can always be generated from the blocks that can be built, unless a name in it is reserved.
This module says which names count. A block is **rendered** if generating code gets to it: from the
first statement of a task of the program, or from a block outside all tasks, over the statements that
follow and, through enabled blocks only, over what is plugged in. The names that are resolved are those
of the tasks, and those that rendered blocks write (`mem_programNames_iff`).
-/

namespace NqcBlocks

namespace Graph

/-- **Where code starts**: with the first statement of a task of the program, and with every block outside
all tasks. -/
inductive Starts (g : Graph) : Handle → Prop
  | task {root : Node} {h : Handle} : g.Planned root → root.Holds "STATEMENTS" h → Starts g h
  | loose {n : Node} : g.Loose n → Starts g n.handle

def Rendered (g : Graph) (n : Node) : Prop :=
  g.get? n.handle = some n ∧ n.enabled = true
    ∧ ∃ start, g.Starts start ∧ Relation.ReflTransGen g.Follows start n.handle

end Graph

namespace Generation

open Graph Gen

variable {g : Graph}

variable {heads : List Handle} {u : ReservedNameError} {n : Node}

theorem mem_parts_treesOf (hg : g.Forest) (hheads : Heads g heads)
    {p : BlockTree} : p ∈ chainParts (treesOf g heads) ↔ ∃ h ∈ heads, ∃ n,
      Relation.ReflTransGen g.Follows h n.handle ∧ g.get? n.handle = some n ∧ n.enabled = true
        ∧ p = g.tree n := by
  unfold treesOf chainsOf
  rw [mem_chainParts]
  constructor
  · rintro ⟨t, ht, hp⟩
    obtain ⟨chain, hchain, ht⟩ := List.mem_flatten.mp ht
    obtain ⟨h, hh, rfl⟩ := List.mem_map.mp hchain
    obtain ⟨n, hn, -⟩ := hheads h hh
    rw [hg.headTrees_eq hn] at ht
    obtain ⟨x, m, hx, hm, hen, rfl⟩ := (hg.mem_chainParts_iff hn).mp (mem_chainParts.mpr ⟨t, ht, hp⟩)
    have hxm := hg.handle_eq hm
    subst hxm
    exact ⟨h, hh, m, hx, hm, hen, rfl⟩
  · rintro ⟨h, hh, m, hx, hm, hen, rfl⟩
    obtain ⟨n, hn, -⟩ := hheads h hh
    obtain ⟨t, ht, hp⟩ := mem_chainParts.mp ((hg.mem_chainParts_iff hn).mpr ⟨_, m, hx, hm, hen, rfl⟩)
    rw [← hg.headTrees_eq hn] at ht
    exact ⟨t, List.mem_flatten.mpr ⟨_, List.mem_map_of_mem hh, ht⟩, hp⟩

theorem mem_namesOf_treesOf (hg : g.Forest) (hheads : Heads g heads)
    : u ∈ namesOf (chainParts (treesOf g heads))
      ↔ ∃ h ∈ heads, ∃ n, Relation.ReflTransGen g.Follows h n.handle ∧ g.get? n.handle = some n
        ∧ n.enabled = true ∧ u ∈ n.names := by
  unfold namesOf
  constructor
  · rintro ⟨p, hp, hu⟩
    obtain ⟨h, hh, n, hx, hn, hen, rfl⟩ := (mem_parts_treesOf hg hheads).mp hp
    rw [hg.node_tree hn] at hu
    exact ⟨h, hh, n, hx, hn, hen, hu⟩
  · rintro ⟨h, hh, n, hx, hn, hen, hu⟩
    refine ⟨g.tree n, (mem_parts_treesOf hg hheads).mpr ⟨h, hh, n, hx, hn, hen, rfl⟩, ?_⟩
    rw [hg.node_tree hn]
    exact hu

theorem mem_heads_iff (hg : g.Forest) {root : Node} (hroot : g.get? root.handle = some root)
    {h : Handle} : h ∈ (root.at? "STATEMENTS").toList ↔ root.Holds "STATEMENTS" h := by
  obtain ⟨-, spec, hc⟩ := hg.sound hroot
  rw [Option.mem_toList, Node.holds_iff hc]

theorem mem_programNames_iff (hg : g.Forest) {options : Options} : u ∈ programNames g options
      ↔ (∃ n ∈ g.nodes, u ∈ n.taskNames) ∨ ∃ n, g.Rendered n ∧ u ∈ n.names := by
  have hloose := heads_loose (r := g.resolver options.policy) hg
  -- a name that the loose blocks write is one of a rendered block
  have hrendered : u ∈ namesOf (chainParts (treesOf g (g.plan (g.resolver options.policy)).loose)) →
      ∃ n, g.Rendered n ∧ u ∈ n.names := by
    intro hu
    obtain ⟨h, hh, n, hx, hn, hen, hu⟩ := (mem_namesOf_treesOf hg hloose).mp hu
    obtain ⟨m, hm, rfl⟩ := hg.mem_plan_loose.mp hh
    exact ⟨n, ⟨hn, hen, _, .loose hm, hx⟩, hu⟩
  constructor
  · rintro (⟨n, hn, hu⟩ | ⟨sec, hsec, hu⟩)
    · exact .inl ⟨n, (List.mem_filter.mp hn).1, hu⟩
    · rcases mem_sections_iff.mp hsec with ⟨-, rfl⟩ | ⟨-, -, rfl⟩ | ⟨root, hroot, rfl⟩ | ⟨-, rfl⟩
      · exact absurd hu (Set.notMem_empty u)
      · exact .inr (hrendered hu)
      · obtain ⟨n, hplanned, rfl⟩ := hg.mem_plan_tasks.mp hroot
        obtain ⟨m, hm, hu⟩ := hu
        obtain ⟨hn, hen, hk⟩ := id hplanned
        rw [hn] at hm
        cases hm
        rcases hu with ⟨hnamed, rfl⟩ | hu
        · rcases hk with ⟨hmain, -⟩ | ⟨-, hne, -⟩
          · rw [hmain] at hnamed
            cases hnamed
          · exact .inl ⟨n, hg.mem_nodes_iff_get?.mpr hn, hen, hnamed, hne, rfl⟩
        · have hheads := heads_task hg hn (hk.imp (·.1) (·.1))
          obtain ⟨h, hh, m, hx, hm, hmen, hu⟩ := (mem_namesOf_treesOf hg hheads).mp hu
          exact .inr ⟨m, ⟨hm, hmen, h, .task hplanned ((mem_heads_iff hg hn).mp hh), hx⟩, hu⟩
      · exact .inr (hrendered hu)
  · rintro (⟨n, hn, hu⟩ | ⟨n, ⟨hn, hen, start, hstart, hx⟩, hu⟩)
    · exact .inl ⟨n, hg.mem_topBlocks_of_isTask (hg.mem_nodes_iff_get?.mp hn) (.inr hu.2.1), hu⟩
    · refine .inr ?_
      cases hstart with
      | @task root h hplanned hholds =>
        obtain ⟨hroot, -, hk⟩ := id hplanned
        have hheads := heads_task hg hroot (hk.imp (·.1) (·.1))
        refine ⟨.task root.handle, mem_sections_iff.mpr (.inr (.inr (.inl
          ⟨_, hg.mem_plan_tasks.mpr ⟨root, hplanned, rfl⟩, rfl⟩))), root, hroot, .inr ?_⟩
        exact (mem_namesOf_treesOf hg hheads).mpr ⟨start, (mem_heads_iff hg hroot).mpr hholds, n, hx, hn, hen, hu⟩
      | @loose m hm =>
        have hmem := hg.mem_plan_loose (r := g.resolver options.policy).mpr ⟨m, hm, rfl⟩
        have hu := (mem_namesOf_treesOf hg hloose).mpr ⟨_, hmem, n, hx, hn, hen, hu⟩
        cases hmain : (g.plan (g.resolver options.policy)).hasMain with
        | true => exact ⟨_, mem_sections_iff.mpr (.inr (.inl ⟨List.ne_nil_of_mem hmem, hmain, rfl⟩)), hu⟩
        | false => exact ⟨_, mem_sections_iff.mpr (.inr (.inr (.inr ⟨hmain, rfl⟩))), hu⟩

end Generation

end NqcBlocks
