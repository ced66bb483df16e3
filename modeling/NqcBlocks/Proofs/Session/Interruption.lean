import Mathlib
import NqcBlocks.Proofs.Validation.Ruling

/-!
# Validation between edits

A validation that is taken step by step lists the tasks when it takes its first step. Blocks may be edited
between any two steps, and a task that has been deleted meanwhile is looked at all the same. For a named task
that does no harm. The rule for main tasks compares with the first one of the graph, and there is none if the
last main task has been deleted: then the step fails (`Session.tick_fails_iff`), and in no other case.
-/

namespace NqcBlocks

open Graph

variable {g : Graph} {h : Handle} {run : ValidationRun} {s : Session}

/-! ## One step -/

variable {n : Node} {e : ValidationError}

theorem Graph.mainVerdict_eq_error_iff :
    g.mainVerdict n = .error e ↔ g.blocksOfKind .mainTask = [] := by
  unfold mainVerdict
  cases e
  split
  · next hnone => exact iff_of_true rfl hnone
  · next hfirst => simp [hfirst]

theorem Graph.verdict_eq_error_iff : g.verdict n = .error e
    ↔ n.kind = .mainTask ∧ g.blocksOfKind .mainTask = [] := by
  rw [← mainVerdict_eq_error_iff (n := n) (e := e)]
  unfold verdict
  split
  · next hk => cases g.mainVerdict n <;> simp [hk, Except.map]
  · next hk => simp [hk]
  · next hk _ => exact iff_of_false (by simp) fun hmain => hk hmain.1

theorem Graph.checkNode_eq_error_iff : g.checkNode h = .error e
    ↔ g.blocksOfKind .mainTask = [] ∧ ∃ n, g.lastState? h = some n ∧ n.kind = .mainTask := by
  unfold checkNode
  cases hn : g.lastState? h with
  | none => simp
  | some n =>
    have hverdict := verdict_eq_error_iff (g := g) (n := n) (e := e)
    rw [and_comm] at hverdict
    simp only [Option.some.injEq, exists_eq_left', ← hverdict]
    cases g.verdict n with
    | error e' => simp
    | ok v => cases v <;> simp

theorem Graph.Forest.checkNode_ne_error (hg : g.Forest) (hh : h ∈ g.tasks) (e : ValidationError) :
    g.checkNode h ≠ .error e := by
  intro herror
  obtain ⟨hnone, n, hn, hk⟩ := checkNode_eq_error_iff.mp herror
  obtain ⟨m, hm, rfl⟩ := List.mem_map.mp hh
  have hmem := (List.mem_filter.mp hm).1
  rw [lastState?_of_get? (hg.mem_nodes_iff_get?.mp hmem)] at hn
  cases hn
  have hmain := mem_blocksOfKind_iff.mpr ⟨hmem, hk⟩
  rw [hnone] at hmain
  cases hmain

namespace ValidationRun

theorem step_eq_error_iff (hg : g.Forest) {e : ValidationError} : (run.step g).2.2 = .error e
    ↔ g.blocksOfKind .mainTask = [] ∧ ∃ h rest n, run.remaining = some (h :: rest)
      ∧ g.lastState? h = some n ∧ n.kind = .mainTask := by
  unfold step
  cases hrun : run.remaining with
  | none =>
    rw [Option.getD_none]
    cases htasks : g.tasks with
    | nil => simp
    | cons h rest =>
      have hfine := hg.checkNode_ne_error (h := h) (by rw [htasks]; exact List.mem_cons_self)
      cases hcheck : g.checkNode h with
      | error e' => exact absurd hcheck (hfine e')
      | ok r => simp [hcheck]
  | some remaining =>
    rw [Option.getD_some]
    cases remaining with
    | nil => simp
    | cons h rest =>
      have hiff : (∃ h' rest' n, some (h :: rest) = some (h' :: rest') ∧ g.lastState? h' = some n
          ∧ n.kind = .mainTask) ↔ ∃ n, g.lastState? h = some n ∧ n.kind = .mainTask := by simp
      rw [hiff, ← checkNode_eq_error_iff (e := e)]
      cases hcheck : g.checkNode h <;> simp [hcheck]

theorem mem_of_mem_step {l : List Handle} (hl : (run.step g).1.remaining = some l) (hh : h ∈ l) :
    (∃ l', run.remaining = some l' ∧ h ∈ l') ∨ h ∈ g.tasks := by
  have hsub : h ∈ run.remaining.getD g.tasks := by
    unfold step at hl
    split at hl
    · cases hl
      cases hh
    · next first rest hlist =>
      rw [hlist]
      split at hl
      · cases hl
        cases hh
      · cases hl
        exact List.mem_cons_of_mem _ hh
  cases hrun : run.remaining with
  | none =>
    rw [hrun] at hsub
    exact .inr hsub
  | some l' =>
    rw [hrun] at hsub
    exact .inl ⟨l', rfl, hsub⟩

theorem forest_step (hg : g.Forest) : (run.step g).2.1.Forest := by
  unfold step
  split
  · exact hg
  · split
    · exact hg
    · next hcheck => exact checkNode_induct (fun hg => (hg.setFlags _ _ _).forest) hg hcheck

end ValidationRun

/-! ## Steps and edits in any order -/

namespace Session

inductive Move where
  | edit (command : Command)
  | tick

def move (s : Session) : Move → Session
  | .edit c => { s with editor := s.editor.attempt c }
  | .tick => s.tickValidation.1

def after (s : Session) (ms : List Move) : Session := ms.foldl move s

theorem tickValidation_eq (hrun : s.validation = some run) :
    s.tickValidation.1.validation = some (run.step s.graph).1
    ∧ s.tickValidation.1.graph = (run.step s.graph).2.1
    ∧ ∀ e, s.tickValidation.2 = .error e
      ↔ ∃ cause, e = .validation cause ∧ (run.step s.graph).2.2 = .error cause := by
  unfold tickValidation
  simp only [hrun]
  rcases hstep : run.step s.graph with ⟨run', g', cause | _ | report⟩
  · refine ⟨rfl, rfl, fun e => ⟨fun h => ⟨cause, ?_, rfl⟩, ?_⟩⟩
    · cases h
      rfl
    · rintro ⟨cause', rfl, hcause⟩
      cases hcause
      rfl
  · exact ⟨rfl, rfl, fun e => by simp⟩
  · refine ⟨?_, ?_, fun e => by simp⟩
    all_goals
      unfold warn
      dsimp only
      split <;> rfl

/-- **A validation under way stays under way on a forest**, whatever the moves. What it has still to look at
was so before them, or was listed as a task of the graph when a step among them was taken. -/
theorem under_way_after (ms : List Move) (hrun : s.validation = some run) (hg : s.graph.Forest) :
    (s.after ms).graph.Forest ∧ ∃ run', (s.after ms).validation = some run'
      ∧ ∀ l, run'.remaining = some l → ∀ h ∈ l, (∃ l', run.remaining = some l' ∧ h ∈ l')
        ∨ ∃ ms₁ ms₂, ms = ms₁ ++ .tick :: ms₂ ∧ h ∈ (s.after ms₁).graph.tasks := by
  induction ms generalizing s run with
  | nil => exact ⟨hg, run, hrun, fun l hl h hh => .inl ⟨l, hl, hh⟩⟩
  | cons m ms ih =>
    cases m with
    | edit c =>
      obtain ⟨hforest, run', hrun', hlisted⟩ := ih (s := s.move (.edit c)) hrun (Editor.leadsTo_attempt hg c).forest
      refine ⟨hforest, run', hrun', fun l hl h hh => (hlisted l hl h hh).imp_right ?_⟩
      rintro ⟨ms₁, ms₂, rfl, htask⟩
      exact ⟨.edit c :: ms₁, ms₂, rfl, htask⟩
    | tick =>
      obtain ⟨hstep, hgraph, -⟩ := tickValidation_eq hrun
      obtain ⟨hforest, run', hrun', hlisted⟩ :=
        ih (s := s.move .tick) hstep (by rw [show (s.move .tick).graph = _ from hgraph]
                                         exact ValidationRun.forest_step hg)
      refine ⟨hforest, run', hrun', fun l hl h hh => ?_⟩
      rcases hlisted l hl h hh with ⟨l', hl', hh'⟩ | ⟨ms₁, ms₂, rfl, htask⟩
      · exact (ValidationRun.mem_of_mem_step hl' hh').imp_right fun htask => ⟨[], ms, rfl, htask⟩
      · exact .inr ⟨.tick :: ms₁, ms₂, rfl, htask⟩

/-- **When a step of a validation fails.** However steps and edits alternate after a validation has been
started, a step gives a report or says that there is nothing left, unless what it has to look at next was a
main task and no main task is in the graph any more. That task was in the graph when an earlier step listed
the tasks, and has been deleted since. -/
theorem tick_fails_iff (hg : s.graph.Forest) (ms : List Move) :
    let s' := s.beginValidation.after ms
    ((∃ e, s'.tickValidation.2 = .error e) ↔ s'.graph.blocksOfKind .mainTask = []
      ∧ ∃ h rest n, s'.validation = some ⟨some (h :: rest)⟩ ∧ s'.graph.lastState? h = some n
        ∧ n.kind = .mainTask)
    ∧ ∀ e, s'.tickValidation.2 = .error e → e = .validation .noMainTask
      ∧ ∃ h ms₁ ms₂, ms = ms₁ ++ .tick :: ms₂ ∧ h ∈ (s.beginValidation.after ms₁).graph.tasks
        ∧ s'.graph.get? h = none := by
  intro s'
  obtain ⟨hforest, run', hrun', hlisted⟩ :=
    under_way_after (s := s.beginValidation) ms rfl hg
  obtain ⟨-, -, herror⟩ := tickValidation_eq hrun'
  refine ⟨⟨?_, ?_⟩, fun e he => ?_⟩
  · rintro ⟨e, he⟩
    obtain ⟨cause, -, hstep⟩ := (herror e).mp he
    obtain ⟨hnone, h, rest, n, hremaining, hn⟩ := (ValidationRun.step_eq_error_iff hforest).mp hstep
    refine ⟨hnone, h, rest, n, hrun'.trans ?_, hn⟩
    cases run'
    exact congrArg (fun r => some (ValidationRun.mk r)) hremaining
  · rintro ⟨hnone, h, rest, n, hvalidation, hn⟩
    cases hrun'.symm.trans hvalidation
    exact ⟨_, (herror _).mpr ⟨.noMainTask, rfl,
      (ValidationRun.step_eq_error_iff hforest).mpr ⟨hnone, h, rest, n, rfl, hn⟩⟩⟩
  · obtain ⟨cause, rfl, hstep⟩ := (herror e).mp he
    obtain ⟨hnone, h, rest, n, hremaining, hn, hk⟩ :=
      (ValidationRun.step_eq_error_iff hforest).mp hstep
    cases cause
    rcases hlisted _ hremaining h List.mem_cons_self with ⟨l', hl', -⟩ | ⟨ms₁, ms₂, hms, htask⟩
    · cases hl'
    refine ⟨rfl, h, ms₁, ms₂, hms, htask, ?_⟩
    rw [Option.eq_none_iff_forall_not_mem]
    intro m hm
    cases (lastState?_of_get? hm).symm.trans hn
    have hmain := mem_blocksOfKind_iff.mpr ⟨mem_nodes_iff.mpr ⟨h, hm⟩, hk⟩
    rw [hnone] at hmain
    cases hmain

def mainTaskDeleted : List Move :=
  [.edit (.create "named_task" { fields := [("NAME", .text "blink")] }), .edit (.create "main_task" {}), .tick,
    .edit (.delete 2)]

theorem mainTaskDeleted_evaluated :
    (((beginValidation {}).after mainTaskDeleted).graph.blocksOfKind .mainTask).isEmpty = true
    ∧ ((beginValidation {}).after mainTaskDeleted).validation = some ⟨some [2]⟩
    ∧ (((beginValidation {}).after mainTaskDeleted).graph.lastState? 2).map (·.kind) = some .mainTask
    ∧ ((beginValidation {}).after mainTaskDeleted).tickValidation.2.toOption.isNone = true := by
  decide +kernel

/-- The only main task is deleted while the named task before it is looked at. -/
theorem tick_fails_iff_deleted :
    let s : Session := {}
    s.graph.Forest ∧ (s.beginValidation.after mainTaskDeleted).graph.blocksOfKind .mainTask = []
    ∧ ∃ e, (s.beginValidation.after mainTaskDeleted).tickValidation.2 = .error e := by
  intro s
  obtain ⟨hempty, hvalidation, hlast, -⟩ := mainTaskDeleted_evaluated
  obtain ⟨n, hn, hk⟩ := Option.map_eq_some_iff.mp hlast
  have hnone := List.isEmpty_iff.mp hempty
  have hfails := (tick_fails_iff (s := s) .empty mainTaskDeleted).1
  exact ⟨.empty, hnone, hfails.mpr ⟨hnone, 2, [], n, hvalidation, hn, hk⟩⟩

/-- **Not every step gives a report or says that there is nothing left**: the rule for main tasks fails on one
that has been deleted. -/
theorem not_all_ticks_succeed : ¬ ∀ (s : Session) (ms : List Move), s.graph.Forest →
    ∃ r, (s.beginValidation.after ms).tickValidation.2 = .ok r := by
  intro hall
  obtain ⟨r, hr⟩ := hall {} mainTaskDeleted .empty
  obtain ⟨-, -, -, hfails⟩ := mainTaskDeleted_evaluated
  rw [hr] at hfails
  cases hfails

end Session

end NqcBlocks
