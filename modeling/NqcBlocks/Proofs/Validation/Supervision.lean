import NqcBlocks.Proofs.Validation.Ruling

/-!
# Supervised graphs stay settled

A validator applies the rules again after each event about a task, and after no other. That is enough:
an edit that tells of no task leaves every task as the rules see it, with its flags
(`Graph.KeepsTasks`), and a settled graph stays settled then (`KeepsTasks.settled`). That is so because
the events of an edit account for all it does (`Accounts.keepsTasks`). Where an edit tells of a task, the
last validation it causes comes after all it does.
-/

namespace NqcBlocks

open List

variable {g : Graph}

def Node.standing? (n : Node) : Option ((Handle × BlockKind × String) × Verdict) :=
  if n.kind.isTask then some (n.entry, n.flags) else none

namespace Graph

/-! ## Keeping the tasks as they are -/

def KeepsTasks (g g' : Graph) : Prop :=
  ∀ h, (g'.get? h).bind Node.standing? = (g.get? h).bind Node.standing?

namespace KeepsTasks

variable {g' : Graph}

theorem symm (h : g.KeepsTasks g') : g'.KeepsTasks g := fun x => (h x).symm

theorem exists_mem (h : g.KeepsTasks g') {n' : Node} (hn' : n' ∈ g'.nodes)
    (hk : n'.kind.isTask = true) : ∃ n ∈ g.nodes, n.entry = n'.entry ∧ n.flags = n'.flags := by
  obtain ⟨x, hx⟩ := mem_nodes_iff.mp hn'
  have hstanding := h x
  rw [hx, Option.bind_some, Node.standing?, if_pos hk] at hstanding
  obtain ⟨n, hn, heq⟩ := Option.bind_eq_some_iff.mp hstanding.symm
  unfold Node.standing? at heq
  split at heq
  · rw [Option.some.injEq, Prod.mk.injEq] at heq
    exact ⟨n, mem_nodes_iff.mpr ⟨x, hn⟩, heq⟩
  · cases heq

theorem sameTasks (h : g.KeepsTasks g') : g.SameTasks g' := by
  intro e he
  constructor
  · rintro ⟨m, hm, rfl⟩
    obtain ⟨n, hn, heq, -⟩ := h.exists_mem hm he
    exact ⟨n, hn, heq⟩
  · rintro ⟨m, hm, rfl⟩
    obtain ⟨n, hn, heq, -⟩ := h.symm.exists_mem hm he
    exact ⟨n, hn, heq⟩

theorem settled (h : g.KeepsTasks g') (hs : g.Settled) : g'.Settled := by
  intro n' hn'
  cases hk : n'.kind.isTask with
  | false => exact due_of_not_isTask hk
  | true =>
    obtain ⟨n, hn, hentry, hflags⟩ := h.exists_mem hn' hk
    have hdue := hs n hn
    unfold due at hdue ⊢
    rw [h.sameTasks.ruling_eq hentry.symm, ← hflags]
    exact hdue

end KeepsTasks

theorem Accounts.keepsTasks {g' : Graph} {events : List Event} (h : g.Accounts events g')
    (hg : g.Forest) (hg' : g'.Forest) (hnone : ∀ event ∈ events, event.kind.isTask = false) :
    g.KeepsTasks g' := by
  have hother : ∀ {n : Node}, n.kind.isTask = false → n.standing? = none := fun hk => by
    rw [Node.standing?, hk]
    rfl
  intro x
  cases hn : g.get? x with
  | none =>
    cases hn' : g'.get? x with
    | none => rfl
    | some n' =>
      obtain ⟨new, hevents, -, hnew⟩ := h.created
      have hmem : n' ∈ new := (hnew n').mpr (by rw [hg'.handle_eq hn']; exact ⟨hn', hn⟩)
      have hevent := mem_of_mem_filter (hevents ▸ mem_map_of_mem hmem)
      exact hother (hnone _ hevent)
  | some n =>
    have hh := hg.handle_eq hn
    cases hn' : g'.get? x with
    | none =>
      obtain ⟨roots, hevents, -, hgone⟩ := h.deleted
      have hmem : n ∈ roots.flatMap g.subtree := (hgone n).mpr (by rw [hh]; exact ⟨hn, hn'⟩)
      have hevent := mem_of_mem_filter (hevents ▸ mem_map_of_mem hmem)
      exact (hother (hnone _ hevent)).symm
    | some n' =>
      have htell := h.stays hn hn'
      show n'.standing? = n.standing?
      by_cases hex : ∃ v ∈ events, v.handle = n.handle
      · obtain ⟨v, hv, hvh⟩ := hex
        have hk : n.kind.isTask = false := htell.named v hv hvh ▸ hnone v hv
        rw [hother hk, hother (htell.kind ▸ hk)]
      · obtain ⟨hbare, -⟩ := htell.kept fun v hv hvh => hex ⟨v, hv, hvh⟩
        have hsame : n'.bare.standing? = n.bare.standing? := by rw [hbare]
        exact hsame

end Graph

/-! ## Commands under supervision -/

namespace Editor

open Graph

theorem revalidate_of_settled (hg : g.Forest) (hs : g.Settled) (count : Nat) : revalidate count g = g := by
  induction count with
  | zero => rfl
  | succ count ih =>
    rw [revalidate, hg.settled_iff.mp hs]
    exact ih

theorem settled_revalidate (hg : g.Forest) {count : Nat} (hcount : 0 < count) : (revalidate count g).Settled := by
  obtain ⟨count, rfl⟩ := Nat.exists_eq_add_of_lt hcount
  rw [Nat.zero_add, revalidate, revalidate_of_settled hg.validate.forest hg.settled_validate]
  exact hg.settled_validate

theorem settled_foldl_tell {events : List Event} {e : Editor} (hg : e.graph.Forest) (hv : 0 < e.validators)
    (h : (∃ event ∈ events, event.kind.isTask = true) ∨ e.graph.Settled) :
    (events.foldl tell e).graph.Settled := by
  induction events generalizing e with
  | nil => exact h.resolve_left fun ⟨_, hmem, _⟩ => absurd hmem not_mem_nil
  | cons event events ih =>
    have hstep : ([event].foldl tell e).graph.Forest := foldl_tell_induct (fun hg => (hg.setFlags _ _ _).forest) hg
    refine ih hstep hv ?_
    cases hk : event.kind.isTask with
    | true =>
      refine .inr ?_
      unfold Editor.tell
      rw [hk]
      exact settled_revalidate hg hv
    | false =>
      have hsame : (e.tell event).graph = e.graph := by
        unfold Editor.tell
        rw [hk]
        rfl
      rw [hsame]
      refine h.imp_left fun ⟨ev, hev, hevk⟩ => ?_
      rcases mem_cons.mp hev with rfl | hev
      · rw [hk] at hevk
        cases hevk
      · exact ⟨ev, hev, hevk⟩

@[simp] theorem validators_foldl_tell (events : List Event) (e : Editor) :
    (events.foldl tell e).validators = e.validators := by
  induction events generalizing e with
  | nil => rfl
  | cons event events ih => exact ih (e.tell event)

/-- **The invariant of supervision**: somebody watches, and the graph is a settled forest. -/
structure Supervised (e : Editor) : Prop where
  watched : 0 < e.validators
  forest : e.graph.Forest
  settled : e.graph.Settled

namespace Supervised

variable {e : Editor}

theorem commit (he : e.Supervised) {edit : Edit} {early : Option Place}
    (hd : e.graph.Done early edit) : (e.commit edit).Supervised where
  watched := by
    unfold Editor.commit
    rw [validators_foldl_tell]
    exact he.watched
  forest := (leadsTo_commit hd.toLeadsTo).forest
  settled := by
    refine settled_foldl_tell (e := { e with graph := edit.graph }) hd.forest he.watched ?_
    by_cases htask : ∃ event ∈ edit.notices.map (·.event), event.kind.isTask = true
    · exact .inl htask
    · refine .inr ((hd.accounts.keepsTasks he.forest hd.forest fun v hv => ?_).settled he.settled)
      exact Bool.eq_false_iff.mpr fun hk => htask ⟨v, hv, hk⟩

theorem attempt (he : e.Supervised) (c : Command) : (e.attempt c).Supervised := by
  unfold Editor.attempt
  rw [perform_eq he.forest]
  exact applyAll_induct (fun hf h hedit => h.commit (c.done h.forest hf hedit)) he

theorem run (he : e.Supervised) (cs : List Command) : (e.run cs).Supervised := by
  induction cs generalizing e with
  | nil => exact he
  | cons c cs ih => exact ih (he.attempt c)

end Supervised

theorem supervised_attachValidator {e : Editor} (hg : e.graph.Forest) : e.attachValidator.Supervised where
  watched := Nat.succ_pos _
  forest := hg.validate.forest
  settled := hg.settled_validate

/-- **Under a validator the tasks are always in order.** After a validator has been attached, and
whatever commands follow, refused ones included, validation has nothing to do: the main task that is
enabled is the first one, and the named tasks that are enabled are the first ones with their names,
which are neither empty nor reserved and all different. -/
theorem settled_of_attachValidator {e : Editor} (he : e.graph.Reachable) (cs : List Command) :
    let g := (e.attachValidator.run cs).graph
    g.validate = (g, 0)
      ∧ (∀ n ∈ g.nodes, n.kind = .mainTask →
        (n.enabled = true ↔ ∀ m ∈ g.nodes, m.kind = .mainTask → n.handle ≤ m.handle))
      ∧ (∀ n ∈ g.nodes, n.kind = .namedTask → (n.enabled = true ↔ n.text "NAME" ≠ ""
        ∧ isReservedTask (n.text "NAME") = false
        ∧ ∀ m ∈ g.nodes, m.kind = .namedTask → m.text "NAME" = n.text "NAME" → n.handle ≤ m.handle))
      ∧ ∀ n ∈ g.nodes, ∀ m ∈ g.nodes, n.kind = .namedTask → m.kind = .namedTask →
        n.enabled = true → m.enabled = true → n.text "NAME" = m.text "NAME" → n = m := by
  intro g
  have hsup : (e.attachValidator.run cs).Supervised := (supervised_attachValidator he.forest).run cs
  have hg : g.Forest := hsup.forest
  have hs : g.Settled := hsup.settled
  refine ⟨hg.settled_iff.mp hs, fun n hn hk => hs.enabled_mainTask_iff hn hk,
    fun n hn hk => hs.enabled_namedTask_iff hn hk, ?_⟩
  intro n hn m hm hnk hmk hne hme hname
  have hnm := ((hs.enabled_namedTask_iff hn hnk).mp hne).2.2 m hm hmk hname.symm
  have hmn := ((hs.enabled_namedTask_iff hm hmk).mp hme).2.2 n hn hnk hname
  exact hg.eq_of_handle_eq hn hm (Nat.le_antisymm hnm hmn)

/-- Renaming a task to the name of an earlier one disables it, and deleting the earlier one enables it
again; a main task that comes too late is disabled although it is asked to be enabled. -/
theorem settled_of_attachValidator_rename :
    let e := Editor.run {} [.create "main_task" {}, .create "main_task" {},
      .create "named_task" { fields := [("NAME", .text "blink")] },
      .create "named_task" { fields := [("NAME", .text "beep")] }]
    let cs : List Command := [.setField 4 "NAME" (.text "blink"), .setEnabled 2 true, .delete 3,
      .delete 3]
    let g := (e.attachValidator.run cs).graph
    e.graph.Reachable ∧ g.validate = (g, 0)
      ∧ g.nodes.map (fun n => (n.handle, n.enabled)) = [(1, true), (2, false), (4, true)] := by
  intro e cs g
  have hreach : e.graph.Reachable := reachable_run .empty _
  exact ⟨hreach, (settled_of_attachValidator hreach cs).1, by decide +kernel⟩

end Editor

end NqcBlocks
