import Mathlib.Data.List.Induction
import Mathlib.Order.WellFounded
import NqcBlocks.Proofs.Graph.Runs

/-!
# Validation in closed form

Validation looks at the tasks one after the other, and the rule about names asks whether an earlier task
of that name is *enabled*, which the same validation has just decided. What comes out is nevertheless a
matter of the names alone. `Graph.ruling` is the verdict about a block in terms of the kinds, the handles
and the names of the tasks, with no flag in it, and `Forest.review_eq` says that validation sets the
flags of every task to that and changes nothing else.
-/

namespace NqcBlocks

open List Option Node

variable {m n : Node} {g g' : Graph} {done rest : List Handle} {v : Verdict}

namespace Node

def flags (n : Node) : Verdict := ⟨n.enabled, n.warning⟩

def flagged (n : Node) (v : Verdict) : Node := { n with enabled := v.enabled, warning := v.warning }

@[simp] theorem flags_flagged (n : Node) (v : Verdict) : (n.flagged v).flags = v := rfl

@[simp] theorem flagged_flags (n : Node) : n.flagged n.flags = n := rfl

theorem changes_iff : v.changes n = true ↔ n.flags ≠ v := by
  obtain ⟨enabled, warning⟩ := v
  unfold Verdict.changes flags
  simp only [Bool.or_eq_true, bne_iff_ne, ne_eq, Verdict.mk.injEq, not_and_or]

def entry (n : Node) : Handle × BlockKind × String := (n.handle, n.kind, n.text "NAME")

end Node

namespace Graph

/-! ## Changing every block -/

def mapNodes (g : Graph) (f : Node → Node) : Graph :=
  { g with cells := g.cells.map fun c => if c.live then { c with node := f c.node } else c }

section MapNodes

variable {f f' : Node → Node}

theorem get?_mapNodes (h : Handle) : (g.mapNodes f).get? h = (g.get? h).map f := by
  cases h with
  | zero => rfl
  | succ i =>
    rw [get?_succ, get?_succ]
    unfold mapNodes
    dsimp only
    rw [Array.getElem?_map]
    cases g.cells[i]? with
    | none => rfl
    | some c => cases hl : c.live <;> simp [hl]

theorem nodes_mapNodes : (g.mapNodes f).nodes = g.nodes.map f := by
  have hsize : (g.mapNodes f).cells.size = g.cells.size := Array.size_map
  rw [nodes_eq, nodes_eq, hsize, map_filterMap]
  exact filterMap_congr fun i _ => get?_mapNodes (i + 1)

theorem mapNodes_congr (h : ∀ n ∈ g.nodes, f n = f' n) : g.mapNodes f = g.mapNodes f' := by
  unfold mapNodes
  congr 1
  refine Array.map_congr_left fun c hc => ?_
  cases hl : c.live with
  | false => rfl
  | true =>
    have hmem : c.node ∈ g.nodes := mem_filterMap.mpr ⟨c, Array.mem_toList_iff.mpr hc, by rw [hl]; rfl⟩
    simp only [if_true, h c.node hmem]

theorem mapNodes_eq_self (h : ∀ n ∈ g.nodes, f n = n) : g.mapNodes f = g := by
  have hid : g.mapNodes f = g.mapNodes id := mapNodes_congr h
  rw [hid]
  unfold mapNodes
  simp

theorem Forest.setFlags_mapNodes (hg : g.Forest) (hn : g.get? n.handle = some n) (v : Verdict) :
    (g.mapNodes f).setFlags n.handle v.enabled v.warning
      = g.mapNodes fun m => if m.handle = n.handle then (f m).flagged v else f m := by
  obtain ⟨i, hi⟩ : ∃ i, n.handle = i + 1 := Nat.exists_eq_succ_of_ne_zero (Nat.ne_of_gt (lt_nextHandle_of_get? hn).1)
  unfold Graph.setFlags Graph.modify
  rw [hi, if_neg (by simp)]
  unfold mapNodes
  dsimp only
  congr 1
  refine Array.ext_getElem? fun j => ?_
  rw [Array.getElem?_modify, Nat.add_sub_cancel, Array.getElem?_map, Array.getElem?_map]
  cases hc : g.cells[j]? with
  | none => simp
  | some c =>
    cases hl : c.live with
    | true =>
      -- the block in a cell carries the handle of the cell
      have hj : c.node.handle = j + 1 := hg.handle_eq (by rw [get?_succ, hc]; simp [hl])
      by_cases hij : i = j
      · subst hij
        simp [hl, hj, flagged]
      · simp [hl, hj, hij, Ne.symm hij]
    | false =>
      have hij : i ≠ j := by
        rintro rfl
        rw [hi, get?_succ, hc] at hn
        simp [hl] at hn
      simp [hl, hij]

def flaggedOn (g : Graph) (flags : Node → Verdict) (done : List Handle) : Graph :=
  g.mapNodes fun n => if n.handle ∈ done then n.flagged (flags n) else n

theorem flaggedOn_nil (flags : Node → Verdict) : g.flaggedOn flags [] = g :=
  mapNodes_eq_self fun _ _ => if_neg not_mem_nil

theorem flaggedOn_eq {flags : Node → Verdict} (h : ∀ n ∈ g.nodes, n.handle ∈ done ∨ flags n = n.flags) :
    g.flaggedOn flags done = g.mapNodes fun n => n.flagged (flags n) := by
  refine mapNodes_congr fun n hn => ?_
  by_cases hmem : n.handle ∈ done
  · rw [if_pos hmem]
  · rw [if_neg hmem, (h n hn).resolve_left hmem, flagged_flags]

theorem Forest.setFlags_flaggedOn (hg : g.Forest) (hn : n ∈ g.nodes) (flags : Node → Verdict) (done : List Handle) :
    (g.flaggedOn flags done).setFlags n.handle (flags n).enabled (flags n).warning
      = g.flaggedOn flags (done ++ [n.handle]) := by
  unfold flaggedOn
  rw [hg.setFlags_mapNodes (hg.mem_nodes_iff_get?.mp hn)]
  refine mapNodes_congr fun m hm => ?_
  by_cases heq : m.handle = n.handle
  · obtain rfl := hg.eq_of_handle_eq hm hn heq
    rw [if_pos rfl, if_pos (mem_append_right _ mem_cons_self)]
    split <;> rfl
  · simp only [heq, if_false, mem_append, mem_singleton, or_false]

theorem Reachable.mapNodes_flagged (hg : g.Reachable) (flags : Node → Verdict) :
    (g.mapNodes fun n => n.flagged (flags n)).Reachable := by
  have hsome : ∀ ns : List Node, (∀ n ∈ ns, n ∈ g.nodes) → (g.flaggedOn flags (ns.map (·.handle))).Reachable := by
    intro ns hns
    induction ns using reverseRecOn with
    | nil => exact (flaggedOn_nil flags).symm ▸ hg
    | append_singleton ns n ih =>
      rw [map_append, map_singleton, ← hg.forest.setFlags_flaggedOn (hns n (mem_append_right _ mem_cons_self))]
      exact .flags _ _ _ (ih fun m hm => hns m (mem_append_left _ hm))
  rw [← flaggedOn_eq fun n hn => .inl (List.mem_map_of_mem hn)]
  exact hsome g.nodes fun _ h => h

end MapNodes

/-! ## The rulings -/

/-- **The verdict about a block in terms of the tasks' kinds, handles and names.** A main task is in order
if there is no earlier one. A named task is in order if it has a name, the name is not reserved, and no
earlier task has it; the first of these that fails is what the verdict is about. -/
def ruling (g : Graph) (n : Node) : Option Verdict :=
  match n.kind with
  | .mainTask => some
      (if ∃ m ∈ g.nodes, m.kind = .mainTask ∧ m.handle < n.handle then .extraMain else .fine)
  | .namedTask => some
      (if n.text "NAME" = "" then .nameRequired
      else if isReservedTask (n.text "NAME") then .reservedName (n.text "NAME")
      else if ∃ m ∈ g.nodes, m.kind = .namedTask ∧ m.handle < n.handle
          ∧ m.text "NAME" = n.text "NAME" then .duplicateName (n.text "NAME")
      else .fine)
  | _ => none

def due (g : Graph) (n : Node) : Verdict := (g.ruling n).getD n.flags

def ruledOn (g : Graph) (done : List Handle) : Graph := g.flaggedOn g.due done

section Ruling

theorem isSome_ruling (n : Node) : (g.ruling n).isSome = n.kind.isTask := by
  unfold ruling
  cases n.kind <;> rfl

theorem due_of_ruling (h : g.ruling n = some v) : g.due n = v := by
  unfold due
  rw [h]
  rfl

theorem due_of_not_isTask (hk : n.kind.isTask = false) : g.due n = n.flags := by
  rw [← isSome_ruling (g := g), isSome_eq_false_iff, isNone_iff_eq_none] at hk
  unfold due
  rw [hk]
  rfl

theorem due_mainTask (hk : n.kind = .mainTask) :
    (g.due n = .fine ↔ ∀ m ∈ g.nodes, m.kind = .mainTask → n.handle ≤ m.handle)
      ∧ (g.due n ≠ .fine → g.due n = .extraMain) := by
  have hdue : g.due n = if ∃ m ∈ g.nodes, m.kind = .mainTask ∧ m.handle < n.handle then .extraMain else .fine := by
    unfold due ruling
    rw [hk]
    rfl
  simp only [hdue, ← Nat.not_lt, ← not_and, ← not_exists]
  split_ifs with hextra
  · exact ⟨iff_of_false nofun (not_not.mpr hextra), fun _ => rfl⟩
  · exact ⟨iff_of_true rfl hextra, fun hne => absurd rfl hne⟩

theorem due_namedTask (hk : n.kind = .namedTask) :
    (g.due n = .fine ↔ n.text "NAME" ≠ "" ∧ isReservedTask (n.text "NAME") = false
        ∧ ∀ m ∈ g.nodes, m.kind = .namedTask → m.text "NAME" = n.text "NAME" → n.handle ≤ m.handle)
      ∧ (g.due n ≠ .fine → g.due n = if n.text "NAME" = "" then .nameRequired
        else if isReservedTask (n.text "NAME") then .reservedName (n.text "NAME")
        else .duplicateName (n.text "NAME")) := by
  have hdue : g.due n = if n.text "NAME" = "" then .nameRequired
      else if isReservedTask (n.text "NAME") then .reservedName (n.text "NAME")
      else if ∃ m ∈ g.nodes, m.kind = .namedTask ∧ m.handle < n.handle
        ∧ m.text "NAME" = n.text "NAME" then .duplicateName (n.text "NAME") else .fine := by
    unfold due ruling
    rw [hk]
    rfl
  rw [hdue]
  split_ifs with hempty hres hdup
  · exact ⟨iff_of_false nofun fun h => h.1 hempty, fun _ => rfl⟩
  · exact ⟨iff_of_false nofun fun h => absurd (hres.symm.trans h.2.1) nofun, fun _ => rfl⟩
  · obtain ⟨m, hm, hmk, hlt, hname⟩ := hdup
    exact ⟨iff_of_false nofun fun h => Nat.not_lt_of_le (h.2.2 m hm hmk hname) hlt, fun _ => rfl⟩
  · refine ⟨iff_of_true rfl ⟨hempty, Bool.eq_false_iff.mpr hres, fun m hm hmk hname => ?_⟩, fun hne => absurd rfl hne⟩
    exact Nat.le_of_not_lt fun hlt => hdup ⟨m, hm, hmk, hlt, hname⟩

theorem enabled_due_iff (hk : n.kind.isTask = true) : (g.due n).enabled = true ↔ g.due n = .fine := by
  refine ⟨fun h => ?_, fun h => h ▸ rfl⟩
  unfold due ruling at h ⊢
  cases hkind : n.kind <;> rw [hkind] at hk h <;> cases hk <;> dsimp only [getD_some] at h ⊢ <;>
    split_ifs at h ⊢ <;> first | rfl | cases h

def SameTasks (g g' : Graph) : Prop :=
  ∀ e, e.2.1.isTask = true → ((∃ m ∈ g'.nodes, m.entry = e) ↔ ∃ m ∈ g.nodes, m.entry = e)

theorem SameTasks.exists_entry (h : g.SameTasks g') {P : Handle × BlockKind × String → Prop}
    (hP : ∀ e, P e → e.2.1.isTask = true) : (∃ m ∈ g'.nodes, P m.entry) ↔ ∃ m ∈ g.nodes, P m.entry := by
  constructor
  · rintro ⟨m, hm, hp⟩
    obtain ⟨m', hm', heq⟩ := (h _ (hP _ hp)).mp ⟨m, hm, rfl⟩
    exact ⟨m', hm', heq ▸ hp⟩
  · rintro ⟨m, hm, hp⟩
    obtain ⟨m', hm', heq⟩ := (h _ (hP _ hp)).mpr ⟨m, hm, rfl⟩
    exact ⟨m', hm', heq ▸ hp⟩

theorem SameTasks.ruling_eq (h : g.SameTasks g') {n' : Node} (hn : n'.entry = n.entry) :
    g'.ruling n' = g.ruling n := by
  have hmain := h.exists_entry (P := fun e => e.2.1 = .mainTask ∧ e.1 < n.handle) fun e he => by rw [he.1]; rfl
  have hnamed := h.exists_entry (P := fun e => e.2.1 = .namedTask ∧ e.1 < n.handle ∧ e.2.2 = n.text "NAME")
    fun e he => by rw [he.1]; rfl
  simp only [entry, Prod.mk.injEq] at hn hmain hnamed
  unfold ruling
  rw [hn.1, hn.2.1, hn.2.2]
  simp only [hmain, hnamed]

theorem sameTasks_mapNodes {f : Node → Node} (hf : ∀ n, (f n).entry = n.entry) : g.SameTasks (g.mapNodes f) := by
  intro e _
  rw [nodes_mapNodes]
  simp only [List.mem_map, exists_exists_and_eq_and, hf]

theorem sameTasks_ruledOn (g : Graph) (done : List Handle) : g.SameTasks (g.ruledOn done) :=
  sameTasks_mapNodes fun _ => by split <;> rfl

theorem exists_first {P : Node → Prop} (hn : n ∈ g.nodes) (hp : P n) :
    ∃ m ∈ g.nodes, P m ∧ ∀ k ∈ g.nodes, P k → m.handle ≤ k.handle := by
  obtain ⟨m, ⟨hm, hpm⟩, hmin⟩ := (measure handle).wf.has_min { m | m ∈ g.nodes ∧ P m } ⟨n, hn, hp⟩
  exact ⟨m, hm, hpm, fun k hk hpk => Nat.le_of_not_lt (hmin k ⟨hk, hpk⟩)⟩

end Ruling

/-! ## Looking at one task -/

section Sorted

variable {l : List Node}

theorem mem_takeWhile_handle_iff (hs : (l.map (·.handle)).Pairwise (· < ·)) (hn : n ∈ l) :
    m ∈ l.takeWhile (fun o => o.handle != n.handle) ↔ m ∈ l ∧ m.handle < n.handle := by
  obtain ⟨before, after, rfl⟩ := append_of_mem hn
  rw [pairwise_map] at hs
  have hbefore : ∀ o ∈ before, (o.handle != n.handle) = true := fun o ho =>
    bne_iff_ne.mpr (Nat.ne_of_lt ((mem_earlier_iff hs).mp ho).2)
  rw [takeWhile_append_of_pos hbefore, takeWhile_cons_of_neg (by simp), append_nil]
  exact mem_earlier_iff hs

theorem sorted_blocksOfKind (hs : (g.nodes.map (·.handle)).Pairwise (· < ·)) (kind : BlockKind) :
    ((g.blocksOfKind kind).map (·.handle)).Pairwise (· < ·) :=
  hs.sublist (List.filter_sublist.map _)

theorem mem_blocksOfKind_iff {kind : BlockKind} : m ∈ g.blocksOfKind kind ↔ m ∈ g.nodes ∧ m.kind = kind := by
  unfold blocksOfKind
  rw [mem_filter, beq_iff_eq]

theorem mainVerdict_eq (hs : (g.nodes.map (·.handle)).Pairwise (· < ·)) (hn : n ∈ g.nodes)
    (hk : n.kind = .mainTask) : g.mainVerdict n = .ok
      (if ∃ m ∈ g.nodes, m.kind = .mainTask ∧ m.handle < n.handle then .extraMain else .fine) := by
  have hmem : n ∈ g.blocksOfKind .mainTask := mem_blocksOfKind_iff.mpr ⟨hn, hk⟩
  -- a main task that comes before this one is one that is met before it
  have hiff : (∃ m ∈ g.nodes, m.kind = .mainTask ∧ m.handle < n.handle)
      ↔ (g.blocksOfKind .mainTask).takeWhile (fun o => o.handle != n.handle) ≠ [] := by
    rw [ne_eq, eq_nil_iff_forall_not_mem, not_forall_not]
    simp only [mem_takeWhile_handle_iff (sorted_blocksOfKind hs .mainTask) hmem, mem_blocksOfKind_iff, and_assoc]
  unfold mainVerdict
  simp only [hiff]
  cases hl : g.blocksOfKind .mainTask with
  | nil =>
    rw [hl] at hmem
    cases hmem
  | cons first rest => by_cases heq : first.handle = n.handle <;> simp [heq]

theorem namedVerdict_eq (hs : (g.nodes.map (·.handle)).Pairwise (· < ·)) (hn : n ∈ g.nodes)
    (hk : n.kind = .namedTask) : g.namedVerdict n = if n.text "NAME" = "" then .nameRequired
        else if isReservedTask (n.text "NAME") then .reservedName (n.text "NAME")
        else if ∃ m ∈ g.nodes, m.kind = .namedTask ∧ m.handle < n.handle ∧ m.enabled = true
            ∧ m.text "NAME" = n.text "NAME" then .duplicateName (n.text "NAME")
        else .fine := by
  have hmem : n ∈ g.blocksOfKind .namedTask := mem_blocksOfKind_iff.mpr ⟨hn, hk⟩
  have hiff : ((g.blocksOfKind .namedTask).takeWhile fun o => o.handle != n.handle).any
        (fun o => o.enabled && o.text "NAME" == n.text "NAME") = true
      ↔ ∃ m ∈ g.nodes, m.kind = .namedTask ∧ m.handle < n.handle ∧ m.enabled = true
        ∧ m.text "NAME" = n.text "NAME" := by
    simp only [List.any_eq_true, mem_takeWhile_handle_iff (sorted_blocksOfKind hs .namedTask) hmem,
      mem_blocksOfKind_iff, Bool.and_eq_true, beq_iff_eq, and_assoc]
  unfold namedVerdict
  simp only [hiff, String.isEmpty_iff]

end Sorted

namespace Forest

theorem sorted_nodes (hg : g.Forest) : (g.nodes.map (·.handle)).Pairwise (· < ·) :=
  hg.typedForest.ordered

theorem sorted_ruledOn (hg : g.Forest) (done : List Handle) :
    ((g.ruledOn done).nodes.map (·.handle)).Pairwise (· < ·) := by
  unfold ruledOn flaggedOn
  rw [nodes_mapNodes, List.map_map]
  refine (map_congr_left fun m _ => ?_) ▸ hg.sorted_nodes
  simp only [Function.comp_apply]
  split <;> rfl

theorem mem_done_iff (hg : g.Forest) (htasks : g.tasks = done ++ n.handle :: rest)
    (hm : m ∈ g.nodes) (hk : m.kind.isTask = true) : m.handle ∈ done ↔ m.handle < n.handle := by
  have hsorted : g.tasks.Pairwise (· < ·) := hg.sorted_nodes.sublist (List.filter_sublist.map _)
  have hmem : m.handle ∈ g.tasks := List.mem_map_of_mem (mem_filter.mpr ⟨hm, hk⟩)
  rw [htasks] at hsorted hmem
  exact (mem_earlier_iff (f := id) hsorted).trans (and_iff_right hmem)

theorem get?_ruledOn_next (hg : g.Forest) (hn : n ∈ g.nodes) (hk : n.kind.isTask = true)
    (htasks : g.tasks = done ++ n.handle :: rest) : (g.ruledOn done).get? n.handle = some n := by
  have hnot : n.handle ∉ done := fun h =>
    absurd ((hg.mem_done_iff htasks hn hk).mp h) (Nat.lt_irrefl _)
  unfold ruledOn flaggedOn
  rw [get?_mapNodes, hg.mem_nodes_iff_get?.mp hn, map_some, if_neg hnot]

theorem exists_enabled_ruledOn_iff (hg : g.Forest) (htasks : g.tasks = done ++ n.handle :: rest)
    (hne : n.text "NAME" ≠ "") (hres : isReservedTask (n.text "NAME") = false) :
    (∃ m ∈ (g.ruledOn done).nodes, m.kind = .namedTask ∧ m.handle < n.handle ∧ m.enabled = true
        ∧ m.text "NAME" = n.text "NAME")
      ↔ ∃ m ∈ g.nodes, m.kind = .namedTask ∧ m.handle < n.handle ∧ m.text "NAME" = n.text "NAME" := by
  constructor
  · rintro ⟨m, hm, hmk, hlt, -, hname⟩
    obtain ⟨m', hm', heq⟩ := (sameTasks_ruledOn g done _ (by rw [entry, hmk]; rfl)).mp ⟨m, hm, rfl⟩
    simp only [entry, Prod.mk.injEq] at heq
    exact ⟨m', hm', heq.2.1.trans hmk, heq.1 ▸ hlt, heq.2.2.trans hname⟩
  · rintro ⟨m, hm, hmk, hlt, hname⟩
    obtain ⟨m₀, hm₀, ⟨hk₀, hname₀⟩, hfirst⟩ := exists_first
      (P := fun k => k.kind = .namedTask ∧ k.text "NAME" = n.text "NAME") hm ⟨hmk, hname⟩
    have hlt₀ : m₀.handle < n.handle := Nat.lt_of_le_of_lt (hfirst m hm ⟨hmk, hname⟩) hlt
    have hdone : m₀.handle ∈ done := (hg.mem_done_iff htasks hm₀ (by rw [hk₀]; rfl)).mpr hlt₀
    have hfine : g.due m₀ = .fine := (due_namedTask hk₀).1.mpr
      ⟨hname₀ ▸ hne, hname₀ ▸ hres, fun k hkm hkk hkn => hfirst k hkm ⟨hkk, hkn.trans hname₀⟩⟩
    refine ⟨m₀.flagged .fine, ?_, hk₀, hlt₀, rfl, hname₀⟩
    unfold ruledOn flaggedOn
    rw [nodes_mapNodes]
    exact List.mem_map.mpr ⟨m₀, hm₀, by rw [if_pos hdone, hfine]⟩

theorem verdict_ruledOn (hg : g.Forest) (hn : n ∈ g.nodes) (htasks : g.tasks = done ++ n.handle :: rest) :
    (g.ruledOn done).verdict n = .ok (g.ruling n) := by
  have hsorted := hg.sorted_ruledOn done
  have hmem : n.kind.isTask = true → n ∈ (g.ruledOn done).nodes := fun hk =>
    mem_nodes_iff.mpr ⟨_, hg.get?_ruledOn_next hn hk htasks⟩
  unfold Graph.verdict
  cases hk : n.kind
  case mainTask =>
    have hruling := (sameTasks_ruledOn g done).ruling_eq (n := n) rfl
    rw [hk] at hmem
    dsimp only
    rw [mainVerdict_eq hsorted (hmem rfl) hk, ← hruling]
    unfold ruling
    rw [hk]
    rfl
  case namedTask =>
    rw [hk] at hmem
    dsimp only
    rw [namedVerdict_eq hsorted (hmem rfl) hk]
    unfold ruling
    rw [hk]
    dsimp only
    congr 2
    refine ite_congr rfl (fun _ => rfl) fun hne => ite_congr rfl (fun _ => rfl) fun hres => ?_
    simp only [hg.exists_enabled_ruledOn_iff htasks hne (Bool.eq_false_iff.mpr hres)]
  all_goals
    unfold ruling
    rw [hk]

theorem checkNode_ruledOn (hg : g.Forest) (hn : n ∈ g.nodes)
    (htasks : g.tasks = done ++ n.handle :: rest) (hv : g.ruling n = some v) :
    (g.ruledOn done).checkNode n.handle = .ok (g.ruledOn (done ++ [n.handle]), some (reportOf n v)) := by
  have hk : n.kind.isTask = true := by rw [← isSome_ruling (g := g), hv]; rfl
  have hflags := hg.setFlags_flaggedOn hn g.due done
  rw [due_of_ruling hv] at hflags
  unfold Graph.checkNode
  rw [lastState?_of_get? (hg.get?_ruledOn_next hn hk htasks)]
  dsimp only
  rw [hg.verdict_ruledOn hn htasks, hv]
  dsimp only
  rw [ruledOn, hflags, ruledOn]

end Forest

end Graph

/-! ## Looking at all of them -/

namespace ValidationRun

/-- **A validation that is run to its end**, with no edit in between: the reports it gives and the graph
that it leaves. -/
inductive Completes : ValidationRun → Graph → List ValidationReport → Graph → Prop
  | finished {run run' : ValidationRun} {g g' : Graph} :
      run.step g = (run', g', .ok none) → Completes run g [] g'
  | report {run run' : ValidationRun} {g g' g'' : Graph} {r : ValidationReport}
      {rs : List ValidationReport} : run.step g = (run', g', .ok (some r)) →
      Completes run' g' rs g'' → Completes run g (r :: rs) g''

theorem Completes.unique {run : ValidationRun} {g₁ g₂ : Graph} {rs₁ rs₂ : List ValidationReport}
    (h₁ : Completes run g rs₁ g₁) (h₂ : Completes run g rs₂ g₂) : rs₁ = rs₂ ∧ g₁ = g₂ := by
  induction h₁ generalizing rs₂ g₂ with
  | finished hs =>
    cases h₂ with
    | finished hs' =>
      rw [hs] at hs'
      cases hs'
      exact ⟨rfl, rfl⟩
    | report hs' =>
      rw [hs] at hs'
      cases hs'
  | report hs _ ih =>
    cases h₂ with
    | finished hs' =>
      rw [hs] at hs'
      cases hs'
    | report hs' ht =>
      rw [hs] at hs'
      cases hs'
      obtain ⟨rfl, rfl⟩ := ih ht
      exact ⟨rfl, rfl⟩

theorem completes_start_iff {rs : List ValidationReport} :
    Completes {} g rs g' ↔ Completes ⟨some g.tasks⟩ g rs g' := by
  have hstep : step {} g = step ⟨some g.tasks⟩ g := rfl
  constructor
  · rintro (h | ⟨h, t⟩)
    · exact .finished (hstep ▸ h)
    · exact .report (hstep ▸ h) t
  · rintro (h | ⟨h, t⟩)
    · exact .finished (hstep.symm ▸ h)
    · exact .report (hstep.symm ▸ h) t

end ValidationRun

namespace Graph

def finding? (g : Graph) (n : Node) : Option ValidationReport := (g.ruling n).map (reportOf n)

namespace Forest

/-- **From any task on**, with the tasks before it looked at: a validation that goes on one task at a time
comes to its end, and one that looks at the rest at once ends with the same. -/
theorem completes_ruledOn (hg : g.Forest) (before after : List Node)
    (h : g.nodes.filter (·.kind.isTask) = before ++ after) :
    ValidationRun.Completes ⟨some (after.map (·.handle))⟩ (g.ruledOn (before.map (·.handle)))
        (after.filterMap g.finding?) (g.ruledOn g.tasks)
      ∧ (g.ruledOn (before.map (·.handle))).checkAll (after.map (·.handle))
        = (g.ruledOn g.tasks, after.filterMap g.finding?) := by
  induction after generalizing before with
  | nil =>
    have htasks : g.tasks = before.map (·.handle) := by
      unfold Graph.tasks
      rw [h, append_nil]
    rw [htasks]
    exact ⟨.finished rfl, rfl⟩
  | cons n after ih =>
    have hmem : n ∈ g.nodes.filter (·.kind.isTask) := h ▸ mem_append_right _ mem_cons_self
    obtain ⟨hn, hk⟩ := mem_filter.mp hmem
    have htasks : g.tasks = before.map (·.handle) ++ n.handle :: after.map (·.handle) := by
      unfold Graph.tasks
      rw [h, map_append, map_cons]
    obtain ⟨v, hv⟩ := isSome_iff_exists.mp ((isSome_ruling (g := g) n).trans hk)
    have hfinding : g.finding? n = some (reportOf n v) := by
      unfold finding?
      rw [hv]
      rfl
    have hcheck := hg.checkNode_ruledOn hn htasks hv
    have hrest := ih (before ++ [n]) (by rw [h, append_assoc]; rfl)
    rw [map_append, map_singleton] at hrest
    rw [filterMap_cons_some hfinding, map_cons]
    refine ⟨.report ?_ hrest.1, ?_⟩
    · unfold ValidationRun.step
      simp only [getD_some, hcheck]
    · rw [Graph.checkAll, hcheck]
      simp only [hrest.2, toList_some, singleton_append]

theorem ruledOn_tasks : g.ruledOn g.tasks = g.mapNodes fun n => n.flagged (g.due n) := by
  refine flaggedOn_eq fun n hn => ?_
  cases hk : n.kind.isTask with
  | true => exact .inl (List.mem_map_of_mem (mem_filter.mpr ⟨hn, hk⟩))
  | false => exact .inr (due_of_not_isTask hk)

theorem filterMap_finding? :
    (g.nodes.filter (·.kind.isTask)).filterMap g.finding? = g.nodes.filterMap g.finding? := by
  rw [filterMap_filter]
  refine filterMap_congr fun n _ => ?_
  cases hk : n.kind.isTask with
  | true => rfl
  | false =>
    rw [← isSome_ruling (g := g), isSome_eq_false_iff, isNone_iff_eq_none] at hk
    unfold finding?
    rw [hk]
    rfl

theorem review_eq (hg : g.Forest) :
    g.review = (g.mapNodes fun n => n.flagged (g.due n), g.nodes.filterMap g.finding?) := by
  have h := (hg.completes_ruledOn [] _ rfl).2
  rw [ruledOn_tasks, filterMap_finding?, map_nil, ruledOn, flaggedOn_nil] at h
  exact h

theorem completes_iff (hg : g.Forest) {rs : List ValidationReport} :
    ValidationRun.Completes {} g rs g' ↔ g' = g.validate.1 ∧ rs = g.review.2 := by
  have h := (hg.completes_ruledOn [] _ rfl).1
  rw [ruledOn_tasks, filterMap_finding?, map_nil, ruledOn, flaggedOn_nil] at h
  rw [ValidationRun.completes_start_iff]
  unfold Graph.validate
  rw [hg.review_eq]
  constructor
  · intro h'
    obtain ⟨rfl, rfl⟩ := h.unique h'
    exact ⟨rfl, rfl⟩
  · rintro ⟨rfl, rfl⟩
    exact h

theorem validate_eq (hg : g.Forest) : g.validate
    = (g.mapNodes fun n => n.flagged (g.due n), g.nodes.countP fun n => decide (g.due n ≠ n.flags)) := by
  unfold Graph.validate
  rw [hg.review_eq]
  dsimp only
  rw [countP_filterMap]
  refine congrArg _ (countP_congr fun n _ => ?_)
  unfold finding? due
  cases g.ruling n with
  | none => simp
  | some v =>
    simp only [map_some, getD_some, reportOf, changes_iff, decide_eq_true_eq]
    exact ne_comm

theorem nodes_validate (hg : g.Forest) : g.validate.1.nodes = g.nodes.map fun n => n.flagged (g.due n) := by
  rw [hg.validate_eq]
  exact nodes_mapNodes

end Forest

/-! ## What validation leaves -/

def Settled (g : Graph) : Prop := ∀ n ∈ g.nodes, g.due n = n.flags

theorem Forest.settled_iff (hg : g.Forest) : g.Settled ↔ g.validate = (g, 0) := by
  rw [hg.validate_eq, Prod.mk.injEq, countP_eq_zero]
  constructor
  · intro h
    refine ⟨mapNodes_eq_self fun n hn => ?_, fun n hn => ?_⟩
    · rw [h n hn, flagged_flags]
    · rw [decide_eq_true_eq, not_not]
      exact h n hn
  · intro h n hn
    have := h.2 n hn
    rwa [decide_eq_true_eq, not_not] at this

theorem due_flagged {flags : Node → Verdict} (hk : n.kind.isTask = true) (v : Verdict) :
    (g.mapNodes fun m => m.flagged (flags m)).due (n.flagged v) = g.due n := by
  have hruling : (g.mapNodes fun m => m.flagged (flags m)).ruling (n.flagged v) = g.ruling n :=
    (sameTasks_mapNodes (f := fun m => m.flagged (flags m)) fun _ => rfl).ruling_eq rfl
  obtain ⟨w, hw⟩ := isSome_iff_exists.mp ((isSome_ruling (g := g) n).trans hk)
  rw [due_of_ruling hw, due_of_ruling (hruling.trans hw)]

theorem Forest.settled_validate (hg : g.Forest) : g.validate.1.Settled := by
  intro n' hn'
  rw [hg.nodes_validate] at hn'
  obtain ⟨n, -, rfl⟩ := List.mem_map.mp hn'
  rw [hg.validate_eq]
  cases hk : n.kind.isTask with
  | true => exact due_flagged hk _
  | false => exact due_of_not_isTask hk

namespace Settled

theorem enabled_mainTask_iff (hs : g.Settled) (hn : n ∈ g.nodes) (hk : n.kind = .mainTask) :
    n.enabled = true ↔ ∀ m ∈ g.nodes, m.kind = .mainTask → n.handle ≤ m.handle := by
  rw [← (due_mainTask hk).1, ← enabled_due_iff (by rw [hk]; rfl), hs n hn]
  rfl

theorem enabled_namedTask_iff (hs : g.Settled) (hn : n ∈ g.nodes) (hk : n.kind = .namedTask) :
    n.enabled = true ↔ n.text "NAME" ≠ "" ∧ isReservedTask (n.text "NAME") = false
      ∧ ∀ m ∈ g.nodes, m.kind = .namedTask → m.text "NAME" = n.text "NAME" → n.handle ≤ m.handle := by
  rw [← (due_namedTask hk).1, ← enabled_due_iff (by rw [hk]; rfl), hs n hn]
  rfl

end Settled

/-- **Validation is a matter of the names.** Running it to its end one task at a time comes to the same
as running it at once, and only flags of tasks change. A main task ends up in order exactly if it is the
first; a named task exactly if it has a name, the name is not reserved and it is the first with the
name; any other task ends up disabled, with the warning of the first rule that it breaks. So the flags
that the blocks had make no difference, a second validation changes nothing, and the first one counts
the blocks whose flags it changes. -/
theorem validate_by_names {g : Graph} (hg : g.Reachable) :
    let g' := g.validate.1
    (∀ reports g'', ValidationRun.Completes {} g reports g'' ↔ g'' = g' ∧ reports = g.review.2)
      ∧ (∃ flags : Node → Verdict,
        g' = g.mapNodes fun n => if n.kind.isTask then n.flagged (flags n) else n)
      ∧ (∀ n ∈ g'.nodes, n.kind = .mainTask →
        (n.flags = .fine ↔ ∀ m ∈ g.nodes, m.kind = .mainTask → n.handle ≤ m.handle)
          ∧ (n.flags ≠ .fine → n.flags = .extraMain))
      ∧ (∀ n ∈ g'.nodes, n.kind = .namedTask →
        (n.flags = .fine ↔ n.text "NAME" ≠ "" ∧ isReservedTask (n.text "NAME") = false
          ∧ ∀ m ∈ g.nodes, m.kind = .namedTask → m.text "NAME" = n.text "NAME" → n.handle ≤ m.handle)
          ∧ (n.flags ≠ .fine → n.flags = if n.text "NAME" = "" then .nameRequired
            else if isReservedTask (n.text "NAME") then .reservedName (n.text "NAME")
            else .duplicateName (n.text "NAME")))
      ∧ (∀ (flags : Node → Verdict) h n, g'.get? h = some n → n.kind.isTask = true →
        (g.mapNodes fun m => m.flagged (flags m)).validate.1.get? h = some n)
      ∧ g'.validate = (g', 0)
      ∧ g.validate.2
        = g.nodes.countP fun n => decide ((g'.get? n.handle).map Node.flags ≠ some n.flags) := by
  have hforest := hg.forest
  have heq : g.validate.1 = g.mapNodes fun n => n.flagged (g.due n) := by rw [hforest.validate_eq]
  have hnodes : ∀ n' ∈ g.validate.1.nodes, ∃ n : Node, n' = n.flagged (g.due n) := by
    intro n' hn'
    rw [hforest.nodes_validate] at hn'
    obtain ⟨n, -, h⟩ := List.mem_map.mp hn'
    exact ⟨n, h.symm⟩
  refine ⟨fun _ _ => hforest.completes_iff, ⟨g.due, ?_⟩, ?_, ?_, ?_, ?_, ?_⟩
  · refine heq.trans (mapNodes_congr fun n _ => ?_)
    cases hk : n.kind.isTask with
    | true => rfl
    | false => simp only [due_of_not_isTask hk, Node.flagged_flags, Bool.false_eq_true, if_false]
  · intro n' hn' hk
    obtain ⟨n, rfl⟩ := hnodes n' hn'
    exact due_mainTask (n := n) hk
  · intro n' hn' hk
    obtain ⟨n, rfl⟩ := hnodes n' hn'
    exact due_namedTask (n := n) hk
  · intro flags h n' hn' hk
    rw [heq, get?_mapNodes] at hn'
    obtain ⟨n, hn, rfl⟩ := Option.map_eq_some_iff.mp hn'
    rw [(hg.mapNodes_flagged flags).forest.validate_eq]
    dsimp only
    rw [get?_mapNodes, get?_mapNodes, hn, Option.map_some, Option.map_some,
      due_flagged (n := n) hk]
    rfl
  · exact (heq ▸ hg.mapNodes_flagged g.due).forest.settled_iff.mp hforest.settled_validate
  · rw [hforest.validate_eq]
    refine List.countP_congr fun n hn => ?_
    rw [get?_mapNodes, hforest.mem_nodes_iff_get?.mp hn]
    simp

def sixTasks : { g : Graph // g.Reachable ∧ g.validate.2 = 5 } :=
  ⟨(Editor.run {} [.create "main_task" {}, .create "main_task" {},
      .create "named_task" { fields := [("NAME", .text "blink")] },
      .create "named_task" { fields := [("NAME", .text "blink")] },
      .create "named_task" { fields := [("NAME", .text "while")] },
      .create "named_task" { fields := [("NAME", .text "")] }, .setEnabled 1 false]).graph,
    reachable_run .empty _, by decide +kernel⟩

/-- Two main tasks, the first of them disabled, and named tasks with a name twice, a reserved name and no
name: validation changes the flags of five of the six. -/
theorem validate_by_names_six :
    let g := (Editor.run {} [.create "main_task" {}, .create "main_task" {},
      .create "named_task" { fields := [("NAME", .text "blink")] },
      .create "named_task" { fields := [("NAME", .text "blink")] },
      .create "named_task" { fields := [("NAME", .text "while")] },
      .create "named_task" { fields := [("NAME", .text "")] }, .setEnabled 1 false]).graph
    g.Reachable ∧ g.validate.2 = 5 ∧ g.validate.1.validate = (g.validate.1, 0) := by
  intro g
  obtain ⟨hreach, hcount⟩ : g.Reachable ∧ g.validate.2 = 5 := sixTasks.2
  obtain ⟨-, -, -, -, -, hagain, -⟩ := validate_by_names hreach
  exact ⟨hreach, hcount, hagain⟩

end Graph

end NqcBlocks
