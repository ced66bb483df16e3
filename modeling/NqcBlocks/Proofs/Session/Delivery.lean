import Mathlib
import NqcBlocks.Proofs.Session.Progress

/-!
# What a generation delivers

A session that takes one step of the generation after another hands out the reports of
`Generation.run`, in their order and each of them once. After them comes the error, if there is one, and
from then on every step says that there is nothing left. So all that a session does from
`Session.beginCode` on is known from what is left to report (`left?_afterTicks`), and that is the same
however often the generation is started again, since no step touches the graph.
-/

namespace NqcBlocks

open List String Generation

variable {s : Session} {left : List CodeReport × Option GenError}

namespace Session

/-! ## One step after another -/

def afterTicks (s : Session) (k : Nat) : Session := Nat.iterate (fun s => s.tickCode.1) k s

def tickOutcome (s : Session) (k : Nat) : Except SessionError (Option CodeReport) :=
  (s.afterTicks k).tickCode.2

def handedOut : Except SessionError (Option CodeReport) → Option CodeReport
  | .ok r => r
  | .error _ => none

def delivered (s : Session) (k : Nat) : List CodeReport :=
  (List.range k).filterMap fun j => handedOut (s.tickOutcome j)

theorem afterTicks_succ (s : Session) (k : Nat) : s.afterTicks (k + 1) = (s.afterTicks k).tickCode.1 :=
  Function.iterate_succ_apply' _ k s

theorem delivered_succ (s : Session) (k : Nat) :
    s.delivered (k + 1) = s.delivered k ++ (handedOut (s.tickOutcome k)).toList := by
  unfold delivered
  rw [range_succ, filterMap_append]
  cases hout : handedOut (s.tickOutcome k) <;> simp [hout]

/-! ## What is left to report -/

def left? (s : Session) : Option (List CodeReport × Option GenError) :=
  s.codeRun.map (·.rest s.graph)

def nextOutcome : List CodeReport × Option GenError → Except SessionError (Option CodeReport)
  | (r :: _, _) => .ok (some r)
  | ([], some e) => .error (.generation e)
  | ([], none) => .ok none

theorem handedOut_nextOutcome (left : List CodeReport × Option GenError) :
    (handedOut (nextOutcome left)).toList = left.1.take 1 := by
  rcases left with ⟨_ | ⟨r, rs⟩, _ | e⟩ <;> rfl

def leftAfter (left : List CodeReport × Option GenError) (k : Nat) :
    List CodeReport × Option GenError :=
  (left.1.drop k, if k ≤ left.1.length then left.2 else none)

theorem leftAfter_succ (left : List CodeReport × Option GenError) (k : Nat) :
    leftAfter left (k + 1) = leftAfter (leftAfter left k) 1 := by
  unfold leftAfter
  refine Prod.ext (drop_drop ..).symm ?_
  simp only [length_drop]
  split_ifs <;> first | rfl | omega

theorem left?_beginCode (s : Session) (options : Options) :
    (s.beginCode options).left? = some (run s.graph options) :=
  congrArg some (CodeRun.rest_start options)

theorem left?_tickCode (hg : s.graph.Grounded) (hs : s.left? = some left) : s.tickCode.2 = nextOutcome left
      ∧ s.tickCode.1.left? = some (leftAfter left 1)
      ∧ s.tickCode.1.outputCode = s.outputCode ++ CodeReport.code (left.1.take 1)
      ∧ s.tickCode.1.editor = s.editor := by
  obtain ⟨run, hrun, rfl⟩ := Option.map_eq_some_iff.mp hs
  obtain ⟨run', hrun', heditor, hcases⟩ := tickCode_cases hg hrun Prod.mk.eta.symm
  have hleft : s.tickCode.1.left? = some (run'.rest s.graph) := by
    rw [left?, hrun', Option.map_some]
    exact congrArg (fun e : Editor => some (run'.rest e.graph)) heditor
  rw [hleft]
  rcases hcases with ⟨r, hout, hrest, hcode, -⟩
    | ⟨hover, hcode, -, ⟨hout, hrest⟩ | ⟨e, hout, hrest⟩⟩
  · rw [hrest, hout, hcode]
    refine ⟨rfl, ?_, ?_, heditor⟩
    · simp [leftAfter]
    · exact congrArg _ (CodeReport.code_singleton r).symm
  · rw [hrest, hout, hover, hcode]
    exact ⟨rfl, rfl, append_empty.symm, heditor⟩
  · rw [hrest, hout, hover, hcode]
    exact ⟨rfl, rfl, append_empty.symm, heditor⟩

theorem left?_afterTicks (hg : s.graph.Grounded) (hs : s.left? = some left) (k : Nat) :
    (s.afterTicks k).left? = some (leftAfter left k)
      ∧ s.delivered k = left.1.take k
      ∧ (s.afterTicks k).outputCode = s.outputCode ++ CodeReport.code (left.1.take k)
      ∧ (s.afterTicks k).editor = s.editor := by
  induction k with
  | zero =>
    refine ⟨hs.trans ?_, rfl, append_empty.symm, rfl⟩
    simp [leftAfter]
  | succ k ih =>
    obtain ⟨hleft, hdelivered, hcode, heditor⟩ := ih
    have hgraph : (s.afterTicks k).graph = s.graph := congrArg Editor.graph heditor
    obtain ⟨hout, hleft', hcode', heditor'⟩ := left?_tickCode (hgraph ▸ hg) hleft
    have htake : left.1.take (k + 1) = left.1.take k ++ (leftAfter left k).1.take 1 := take_add
    rw [afterTicks_succ, delivered_succ, htake]
    refine ⟨hleft'.trans (congrArg some (leftAfter_succ left k).symm), ?_, ?_, heditor'.trans heditor⟩
    · rw [hdelivered, tickOutcome, hout, handedOut_nextOutcome]
    · rw [hcode', hcode, CodeReport.code_append, String.append_assoc]

theorem tickOutcome_eq (hg : s.graph.Grounded) (hs : s.left? = some left) (k : Nat) :
    s.tickOutcome k = nextOutcome (leftAfter left k) := by
  obtain ⟨hleft, -, -, heditor⟩ := left?_afterTicks hg hs k
  have hgraph : (s.afterTicks k).graph = s.graph := congrArg Editor.graph heditor
  exact (left?_tickCode (hgraph ▸ hg) hleft).1

theorem nextOutcome_of_lt {k : Nat} (hk : k < left.1.length) :
    ∃ r, nextOutcome (leftAfter left k) = .ok (some r) := by
  refine ⟨left.1[k], ?_⟩
  unfold leftAfter
  rw [drop_eq_getElem_cons hk]
  rfl

theorem delivery_of_beginCode (hg : s.graph.Grounded) (options : Options) (k : Nat) :
    (s.beginCode options).tickOutcome k = nextOutcome (leftAfter (run s.graph options) k)
      ∧ (s.beginCode options).delivered k = (run s.graph options).1.take k
      ∧ ((s.beginCode options).afterTicks k).outputCode = CodeReport.code ((run s.graph options).1.take k)
      ∧ ((s.beginCode options).afterTicks k).editor = s.editor := by
  obtain ⟨-, hdelivered, hcode, heditor⟩ :=
    left?_afterTicks (s := s.beginCode options) hg (left?_beginCode s options) k
  have hout := tickOutcome_eq (s := s.beginCode options) hg (left?_beginCode s options) k
  exact ⟨hout, hdelivered, hcode.trans empty_append, heditor⟩

/-- **A session delivers the program of its graph.** From the start of a generation on, the code that the
session has collected is the code of the reports it has had. If there is a program, that code is the
beginning of it, and it is all of it when a step says for the first time that there is nothing left. If
there is an error, a step raises it after exactly the reports that come before it. Starting the
generation again, wherever it stands, leads to the same steps and the same code, and no step changes the
graph. -/
theorem delivers_program {s : Session} (hg : s.graph.Grounded) (options : Options) :
    let t := s.beginCode options
    (∀ k, (t.afterTicks k).outputCode = CodeReport.code (t.delivered k))
    ∧ (∀ text, Generation.code s.graph options = .ok text →
        (∀ k, ∃ rest, text = (t.afterTicks k).outputCode ++ rest)
        ∧ ∃ m, (∀ k < m, ∃ r, t.tickOutcome k = .ok (some r))
          ∧ ∀ k, m ≤ k → t.tickOutcome k = .ok none ∧ (t.afterTicks k).outputCode = text)
    ∧ (∀ e, Generation.code s.graph options = .error e →
        ∃ m, (∀ k < m, ∃ r, t.tickOutcome k = .ok (some r))
          ∧ t.delivered m = (Generation.run s.graph options).1
          ∧ t.tickOutcome m = .error (.generation e)
          ∧ (t.afterTicks (m + 1)).outputCode = CodeReport.code (t.delivered m))
    ∧ (∀ j k, ((t.afterTicks j).beginCode options).tickOutcome k = t.tickOutcome k
        ∧ (((t.afterTicks j).beginCode options).afterTicks k).outputCode = (t.afterTicks k).outputCode)
    ∧ ∀ k, (t.afterTicks k).editor = s.editor := by
  intro t
  have hdelivery := delivery_of_beginCode hg options
  unfold Generation.code
  rcases hrun : Generation.run s.graph options with ⟨reports, error⟩
  rw [hrun] at hdelivery
  refine ⟨fun k => ?_, fun text htext => ?_, fun e herror => ?_, fun j k => ?_, fun k => (hdelivery k).2.2.2⟩
  · obtain ⟨-, hdelivered, hcode, -⟩ := hdelivery k
    rw [hcode, hdelivered]
  · cases error with
    | some e => cases htext
    | none =>
      cases htext
      refine ⟨fun k => ⟨CodeReport.code (reports.drop k), ?_⟩, reports.length, fun k hk => ?_,
        fun k hk => ⟨?_, ?_⟩⟩
      · rw [(hdelivery k).2.2.1, ← CodeReport.code_append, List.take_append_drop]
      · rw [(hdelivery k).1]
        exact nextOutcome_of_lt hk
      · rw [(hdelivery k).1, leftAfter, List.drop_eq_nil_of_le hk, ite_self]
        rfl
      · rw [(hdelivery k).2.2.1, List.take_of_length_le hk]
  · cases error with
    | none => cases herror
    | some e =>
      cases herror
      have hall : t.delivered reports.length = reports := by
        rw [(hdelivery _).2.1, List.take_length]
      refine ⟨reports.length, fun k hk => ?_, hall, ?_, ?_⟩
      · rw [(hdelivery k).1]
        exact nextOutcome_of_lt hk
      · rw [(hdelivery _).1, leftAfter, List.drop_length, if_pos le_rfl]
        rfl
      · rw [(hdelivery _).2.2.1, List.take_of_length_le (Nat.le_succ _), hall]
  · -- the session that starts again has the same graph
    have hgraph : (t.afterTicks j).graph = s.graph := congrArg Editor.graph (hdelivery j).2.2.2
    obtain ⟨hout, -, hcode, -⟩ := delivery_of_beginCode (s := t.afterTicks j) (hgraph ▸ hg) options k
    rw [hout, hcode, hgraph, hrun, (hdelivery k).1, (hdelivery k).2.2.1]
    exact ⟨rfl, rfl⟩

def keywordInSecondTask : List Command :=
  [.create "main_task" {}, .create "variable_set" { fields := [("VAR", .text "x")] },
    .connectStatement 1 "STATEMENTS" 2, .create "named_task" { fields := [("NAME", .text "other")] },
    .create "variable_set" { fields := [("VAR", .text "while")] }, .connectStatement 3 "STATEMENTS" 4]

/-- The keyword gets a number, or stops the generation when the main task has been delivered. -/
theorem delivers_program_keyword :
    let s : Session := { editor := Editor.run {} keywordInSecondTask }
    s.graph.Grounded
    ∧ (∃ m, ∀ k, m ≤ k → ((s.beginCode { policy := .rename }).afterTicks k).outputCode
        = "task main()\n\x7b\n  int x;\n\n  x = 0;\n\x7d\n\n"
          ++ "task other()\n\x7b\n  int while2;\n\n  while2 = 0;\n\x7d\n")
    ∧ ∃ m, (s.beginCode { policy := .reject }).tickOutcome m
        = .error (.generation (.reserved { name := "while", use := .variable }))
      ∧ ((s.beginCode { policy := .reject }).afterTicks (m + 1)).outputCode
        = "task main()\n\x7b\n  int x;\n\n  x = 0;\n\x7d\n\n" := by
  intro s
  have hg : s.graph.Grounded := (Graph.reachable_run .empty _).forest.grounded
  have hok : Generation.code s.graph { policy := .rename }
      = .ok ("task main()\n\x7b\n  int x;\n\n  x = 0;\n\x7d\n\n"
        ++ "task other()\n\x7b\n  int while2;\n\n  while2 = 0;\n\x7d\n") :=
    eq_ok_of_toOption (by decide +kernel)
  have herror : Generation.code s.graph { policy := .reject }
      = .error (.reserved { name := "while", use := .variable }) := by
    cbv
  have hbefore : CodeReport.code (Generation.run s.graph { policy := .reject }).1
      = "task main()\n\x7b\n  int x;\n\n  x = 0;\n\x7d\n\n" := by
    decide +kernel
  obtain ⟨-, m, -, hdone⟩ := (delivers_program hg { policy := .rename }).2.1 _ hok
  obtain ⟨m', -, hdelivered, hraised, hcode⟩ :=
    (delivers_program hg { policy := .reject }).2.2.1 _ herror
  exact ⟨hg, ⟨m, fun k hk => (hdone k hk).2⟩, m', hraised, by rw [hcode, hdelivered, hbefore]⟩

end Session

end NqcBlocks
