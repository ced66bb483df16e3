import NqcBlocks.Proofs.Program.Sections

/-!
# Graphs that differ in one task only

Two graphs **agree outside** a task if taking away what is plugged into the task's socket for statements leaves
the same blocks of both (`Graph.AgreeOutside`). The blocks in the body may be any at all, and as many as there
may be.
-/

namespace NqcBlocks

open List Plan Node

variable {n : Node}

def Node.emptied (task : Handle) (n : Node) : Node :=
  if n.handle = task then n.plugStatement "STATEMENTS" none else n

theorem Node.emptied_of_ne {task : Handle} (h : n.handle ≠ task) : n.emptied task = n :=
  if_neg h

theorem Node.handle_emptied (task : Handle) (n : Node) : (n.emptied task).handle = n.handle := by
  unfold emptied
  split <;> rfl

theorem Node.kind_emptied (task : Handle) (n : Node) : (n.emptied task).kind = n.kind := by
  unfold emptied
  split <;> rfl

theorem Node.parent_emptied (task : Handle) (n : Node) : (n.emptied task).parent = n.parent := by
  unfold emptied
  split <;> rfl

namespace Graph

def body (g : Graph) (task : Handle) : List Node :=
  match g.statementTarget task "STATEMENTS" with
  | .ok (some first) => g.subtree first
  | _ => []

def isOutside (g : Graph) (task : Handle) (n : Node) : Bool :=
  (g.body task).all fun m => m.handle != n.handle

/-- **What is left of a graph when the body of a task is taken away**: the blocks outside the body in order of
creation, the task with an empty socket. -/
def withoutBody (g : Graph) (task : Handle) : List Node :=
  (g.nodes.filter (g.isOutside task)).map (Node.emptied task)

/-- **Two graphs agree outside a task**: taking away its body leaves the same of both. -/
structure AgreeOutside (task : Handle) (g g' : Graph) : Prop where
  isTask : ∃ n, g.get? task = some n ∧ (n.kind = .mainTask ∨ n.kind = .namedTask)
  withoutBody : g.withoutBody task = g'.withoutBody task

/-! ## Blocks outside the body -/

section Blocks

variable {g : Graph} {t : Node}

theorem isOutside_iff {task : Handle} : g.isOutside task n = true ↔ ∀ m ∈ g.body task, m.handle ≠ n.handle := by
  unfold isOutside
  simp only [all_eq_true, bne_iff_ne]

namespace Forest

theorem get?_of_statementTarget (hg : g.Forest) (ht : g.get? t.handle = some t) {slot : String}
    (htarget : g.statementTarget t.handle slot = .ok (some n)) : g.get? n.handle = some n := by
  unfold statementTarget at htarget
  rw [node_eq_ok_iff.mpr ht] at htarget
  cases hslot : t.statementSlot slot with
  | error e =>
    change (t.statementSlot slot >>= fun target => pure (g.follow? target)) = _ at htarget
    rw [hslot] at htarget
    cases htarget
  | ok target =>
    change (t.statementSlot slot >>= fun target => pure (g.follow? target)) = _ at htarget
    rw [hslot] at htarget
    obtain ⟨h, -, hn⟩ := Option.bind_eq_some_iff.mp (Except.ok.inj htarget)
    rwa [hg.handle_eq hn]

theorem mem_body_iff (hg : g.Forest) (ht : g.get? t.handle = some t)
    (hk : t.kind = .mainTask ∨ t.kind = .namedTask) {m : Node} :
    m ∈ g.body t.handle ↔ ∃ first, g.get? first.handle = some first
      ∧ first.parent = some ⟨t.handle, "STATEMENTS"⟩ ∧ m ∈ g.subtree first := by
  obtain ⟨target, htarget, hheads⟩ := Generation.statementTarget_task hg ht hk
  unfold body
  rw [htarget]
  cases target with
  | none =>
    have hat : t.at? "STATEMENTS" = none := Option.toList_eq_nil_iff.mp hheads.symm
    constructor
    · intro hm
      cases hm
    · rintro ⟨first, hfirst, hp, -⟩
      obtain ⟨m, hm, hat', -⟩ := hg.exists_owner hfirst hp
      rw [ht] at hm
      cases hm
      rw [hat] at hat'
      cases hat'
  | some first =>
    have hat : t.at? "STATEMENTS" = some first.handle := Option.toList_eq_singleton_iff.mp hheads.symm
    have hfirst := hg.get?_of_statementTarget ht htarget
    obtain ⟨m', hm', hp, -⟩ := hg.exists_child ht hat
    rw [hfirst] at hm'
    cases hm'
    constructor
    · exact fun hm => ⟨first, hfirst, hp, hm⟩
    · rintro ⟨first', hfirst', hp', hm⟩
      -- only one block is plugged into the socket
      obtain ⟨t', ht', hat', -⟩ := hg.exists_owner hfirst' hp'
      rw [ht] at ht'
      cases ht'
      rw [hat] at hat'
      rw [← Option.some.inj hat', hfirst] at hfirst'
      cases hfirst'
      exact hm

theorem isOutside_eq_false_iff (hg : g.Forest) (ht : g.get? t.handle = some t)
    (hk : t.kind = .mainTask ∨ t.kind = .namedTask) (hn : g.get? n.handle = some n) :
    g.isOutside t.handle n = false ↔ ∃ first, first.parent = some ⟨t.handle, "STATEMENTS"⟩
      ∧ g.get? first.handle = some first ∧ g.Within n.handle first.handle := by
  rw [← Bool.not_eq_true, isOutside_iff]
  push Not
  constructor
  · rintro ⟨m, hm, hmn⟩
    obtain ⟨first, hfirst, hp, hmem⟩ := (hg.mem_body_iff ht hk).mp hm
    exact ⟨first, hp, hfirst, hmn ▸ ((hg.mem_subtree_iff hfirst).mp hmem).2⟩
  · rintro ⟨first, hp, hfirst, hw⟩
    exact ⟨n, (hg.mem_body_iff ht hk).mpr ⟨first, hfirst, hp, (hg.mem_subtree_iff hfirst).mpr ⟨hn, hw⟩⟩, rfl⟩

theorem isOutside_of_top (hg : g.Forest) (ht : g.get? t.handle = some t)
    (hk : t.kind = .mainTask ∨ t.kind = .namedTask) (hn : g.get? n.handle = some n)
    (hp : n.parent = none) : g.isOutside t.handle n = true := by
  rw [← Bool.not_eq_false, hg.isOutside_eq_false_iff ht hk hn]
  rintro ⟨first, hfp, hfirst, hw⟩
  -- the block would be the first one of the body, which is plugged in
  rw [← eq_of_within_of_top (by rw [parent?_of_get? hn, hp]) hw, hn] at hfirst
  cases hfirst
  cases hp.symm.trans hfp

theorem isOutside_child (hg : g.Forest) (ht : g.get? t.handle = some t)
    (hk : t.kind = .mainTask ∨ t.kind = .namedTask) (hn : g.get? n.handle = some n)
    (hne : n.handle ≠ t.handle) (hout : g.isOutside t.handle n = true) {k : String} {m : Node}
    (hm : g.get? m.handle = some m) (hp : m.parent = some ⟨n.handle, k⟩) : g.isOutside t.handle m = true := by
  rw [← Bool.not_eq_false, hg.isOutside_eq_false_iff ht hk hm]
  rintro ⟨first, hfp, hfirst, hw⟩
  by_cases hsame : m.handle = first.handle
  · -- the block would be the first one of the body, which is plugged into the task
    rw [← hsame, hm] at hfirst
    cases hfirst
    exact hne (congrArg Place.owner (Option.some.inj (hp.symm.trans hfp)))
  · rw [within_iff_of_parent (by rw [parent?_of_get? hm, hp]) hsame] at hw
    cases hout.symm.trans ((hg.isOutside_eq_false_iff ht hk hn).mpr ⟨first, hfp, hfirst, hw⟩)

end Forest

end Blocks

namespace AgreeOutside

variable {task : Handle} {g g' : Graph}

theorem top (h : g.AgreeOutside task g') (hg : g.Forest) : ∃ t, t.handle = task
    ∧ g.get? t.handle = some t ∧ t.parent = none ∧ (t.kind = .mainTask ∨ t.kind = .namedTask) := by
  obtain ⟨t, ht, hk⟩ := h.isTask
  have hmem : t ∈ g.nodes := mem_nodes_iff.mpr ⟨task, ht⟩
  exact ⟨t, hg.handle_eq ht, hg.mem_nodes_iff_get?.mp hmem, (hg.typedForest.tasks t hmem hk).1, hk⟩

theorem mem_withoutBody (hg : g.Forest) (hn : g.get? n.handle = some n) (hne : n.handle ≠ task)
    (hout : g.isOutside task n = true) : n ∈ g.withoutBody task :=
  mem_map.mpr ⟨n, mem_filter.mpr ⟨hg.mem_nodes_iff_get?.mpr hn, hout⟩, emptied_of_ne hne⟩

theorem get?_eq (h : g.AgreeOutside task g') (hg : g.Forest) (hg' : g'.Forest)
    (hn : g.get? n.handle = some n) (hne : n.handle ≠ task) (hout : g.isOutside task n = true) :
    g'.get? n.handle = some n := by
  have hmem := mem_withoutBody hg hn hne hout
  rw [h.withoutBody] at hmem
  obtain ⟨m, hm, hmn⟩ := mem_map.mp hmem
  have hhandle : m.handle = n.handle := by rw [← hmn, handle_emptied]
  rw [emptied_of_ne (hhandle ▸ hne)] at hmn
  rw [← hmn]
  exact hg'.mem_nodes_iff_get?.mp (mem_filter.mp hm).1

theorem exists_task (h : g.AgreeOutside task g') (hg : g.Forest) (hg' : g'.Forest) : ∃ t', t'.handle = task
    ∧ g'.get? t'.handle = some t' ∧ (t'.kind = .mainTask ∨ t'.kind = .namedTask) := by
  obtain ⟨t, rfl, ht, hp, hk⟩ := h.top hg
  have hmem : t.emptied t.handle ∈ g.withoutBody t.handle := mem_map.mpr
    ⟨t, mem_filter.mpr ⟨hg.mem_nodes_iff_get?.mpr ht, hg.isOutside_of_top ht hk ht hp⟩, rfl⟩
  rw [h.withoutBody] at hmem
  obtain ⟨t', ht', heq⟩ := mem_map.mp hmem
  have hhandle : t'.handle = t.handle := by
    rw [← handle_emptied t.handle, heq, handle_emptied]
  have hkind : t'.kind = t.kind := by
    rw [← kind_emptied t.handle, heq, kind_emptied]
  exact ⟨t', hhandle, hg'.mem_nodes_iff_get?.mp (mem_filter.mp ht').1, hkind ▸ hk⟩

/-! ## Trees -/

theorem tree_eq (h : g.AgreeOutside task g') (hg : g.Forest) (hg' : g'.Forest)
    (hn : g.get? n.handle = some n) (hne : n.handle ≠ task) (hout : g.isOutside task n = true) :
    g.tree n = g'.tree n ∧ g.trees (some n.handle) = g'.trees (some n.handle) := by
  refine hg.induction_inwards (P := fun n => n.handle ≠ task → g.isOutside task n = true →
    g.tree n = g'.tree n ∧ g.trees (some n.handle) = g'.trees (some n.handle)) ?_ hn hne hout
  clear hn hne hout
  intro x n hn ih hne hout
  obtain rfl := hg.handle_eq hn
  obtain ⟨-, spec, hc⟩ := hg.sound hn
  obtain ⟨t, rfl, ht, htop, hk⟩ := h.top hg
  have hget := h.get?_eq hg hg' hn hne hout
  -- what is plugged in is outside the body too, and so the induction applies to it
  have hchild : ∀ {k c}, n.at? k = some c → ∃ m, g.get? c = some m ∧ g'.get? c = some m
      ∧ g.tree m = g'.tree m ∧ g.trees (some c) = g'.trees (some c) := by
    intro k c hat
    obtain ⟨m, hm, hp, -⟩ := hg.exists_child hn hat
    obtain rfl := hg.handle_eq hm
    have hout' := hg.isOutside_child ht hk hn hne hout hm hp
    have hne' : m.handle ≠ t.handle := by
      intro e
      rw [e, ht] at hm
      cases hm
      rw [htop] at hp
      cases hp
    exact ⟨m, hm, h.get?_eq hg hg' hm hne' hout', ih hat hm hne' hout'⟩
  have hchain : ∀ {k target}, n.at? k = target → g.trees target = g'.trees target := by
    intro k target hat
    cases target with
    | none => exact (g.treesWithin_none _).trans (g'.treesWithin_none _).symm
    | some c => exact (hchild hat).choose_spec.2.2.2
  have htree : g.tree n = g'.tree n := by
    rw [hg.tree_eq hn, hg'.tree_eq hget]
    refine congrArg₂ (BlockTree.mk n true) (map_congr_left fun e he => ?_) (map_congr_left fun e he => ?_)
    · have hat := Forest.at?_of_mem_valueSlots hc he
      refine congrArg (Prod.mk e.1) ?_
      cases htarget : e.2.target with
      | none => rfl
      | some c =>
        rw [htarget] at hat
        obtain ⟨m, hm, hm', heq, -⟩ := hchild hat
        simp only [follow?, Option.bind_some, hm, hm', Option.map_some, heq]
    · exact congrArg (Prod.mk e.1) (hchain (Forest.at?_of_mem_statementSlots hc he))
  refine ⟨htree, ?_⟩
  rw [hg.trees_eq hn, hg'.trees_eq hget, htree]
  exact congrArg _ (hchain n.at?_nextPosition)

theorem headTrees_eq (h : g.AgreeOutside task g') (hg : g.Forest) (hg' : g'.Forest)
    (hn : g.get? n.handle = some n) (hne : n.handle ≠ task) (hout : g.isOutside task n = true) :
    g.headTrees n.handle = g'.headTrees n.handle := by
  rw [hg.headTrees_eq hn, hg'.headTrees_eq (h.get?_eq hg hg' hn hne hout)]
  exact (h.tree_eq hg hg' hn hne hout).2

/-! ## Blocks that stand on their own -/

theorem put_emptied (task : Handle) (r : Resolver) (p : Plan) (seen : List String) (n : Node) :
    put r p seen (n.emptied task) = put r p seen n := by
  unfold emptied
  split <;> rfl

theorem putAll_emptied (task : Handle) (r : Resolver) : ∀ (ns : List Node) (p : Plan) (seen : List String),
    putAll r p seen (ns.map (emptied task)) = putAll r p seen ns
  | [], _, _ => rfl
  | n :: ns, p, seen => by
    rw [map_cons, putAll, putAll, put_emptied, putAll_emptied task r ns]

theorem map_emptied_topBlocks (hg : g.Forest) {t : Node} (ht : g.get? t.handle = some t)
    (hk : t.kind = .mainTask ∨ t.kind = .namedTask) : g.topBlocks.map (emptied t.handle)
      = (g.withoutBody t.handle).filter (·.parent.isNone) := by
  have hparent : (fun n : Node => n.parent.isNone) ∘ emptied t.handle = fun n => n.parent.isNone := by
    funext n
    exact congrArg Option.isNone (n.parent_emptied t.handle)
  unfold topBlocks Graph.withoutBody
  rw [filter_map, hparent, filter_filter]
  refine congrArg _ (filter_congr fun n hn => ?_)
  cases hp : n.parent with
  | none => rw [hg.isOutside_of_top ht hk (hg.mem_nodes_iff_get?.mp hn) hp]; rfl
  | some p => rfl

theorem plan_eq (h : g.AgreeOutside task g') (hg : g.Forest) (hg' : g'.Forest) (r : Resolver) :
    g.plan r = g'.plan r := by
  obtain ⟨t, htask, ht, -, hk⟩ := h.top hg
  obtain ⟨t', htask', ht', hk'⟩ := h.exists_task hg hg'
  have htop : g.topBlocks.map (emptied task) = g'.topBlocks.map (emptied task) := by
    have hleft := map_emptied_topBlocks hg ht hk
    have hright := map_emptied_topBlocks hg' ht' hk'
    rw [htask] at hleft
    rw [htask'] at hright
    rw [hleft, hright, h.withoutBody]
  unfold plan
  rw [← putAll_emptied task, htop, putAll_emptied]

end AgreeOutside

end Graph

end NqcBlocks
