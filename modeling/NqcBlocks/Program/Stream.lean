import NqcBlocks.Program.Generate

/-!
# Generating a program step by step

A **code run** generates a program one report at a time, looking at the graph as it is when the report
is asked for. What is left to do is an agenda; doing its first item makes reports, which are handed
out one by one, and may put further items in front. The plan is made when the first report is asked
for, a task's variables are collected when its header is, and the statement after a block is looked up
when the report after the block is.
-/

namespace NqcBlocks

inductive AgendaItem where
  | plan
  | report (r : CodeReport)
  | openSection (s : Section)
  | visit (node : Handle) (margin : String)
  | advance (node : Handle) (margin : String)
  | closeGlobal
  | closeTask (t : Generation.TaskHead)

structure CodeRun where
  context : Context
  agenda : List AgendaItem
  pending : List CodeReport := []

namespace CodeRun

open Generation

def start (options : Options := {}) : CodeRun :=
  { context := .start options, agenda := [.plan] }

def sectionItems : List Section → List AgendaItem
  | [] => []
  | [s] => [.openSection s]
  | s :: rest => .openSection s :: .report { message := "Separating sections.", newCode := "\n" }
      :: sectionItems rest

def planItems (g : Graph) : Gen (List AgendaItem) := do
  Gen.begin g
  let p ← Plan.ofGraph g
  Gen.emit (startReport p)
  pure (p.skipped.map (fun (h, reason) => .report (.warn h reason))
    ++ sectionItems (sections (← get).options p) ++ [.report endReport])

def visitItem (g : Graph) (node : Handle) (margin : String) : Gen (List AgendaItem) := do
  match g.lastState? node with
  | none => pure []
  | some n =>
    emitBlock g.catalog margin (g.tree n)
    pure [.advance node margin]

def perform (g : Graph) : AgendaItem → Gen (List AgendaItem)
  | .plan => planItems g
  | .report r => do
    Gen.emit r
    pure []
  | .openSection (.preamble text) => do
    emitPreamble text
    pure []
  | .openSection (.global loose) => do
    emitGlobalHeader g loose
    pure (loose.map (.visit · "") ++ [.closeGlobal])
  | .openSection (.task root) => do openTask (← taskHead g root)
  | .openSection (.main loose) => openTask (looseHead loose)
  | .visit node margin => visitItem g node margin
  | .advance node margin =>
    match (g.lastState? node).bind fun n => g.follow? n.next with
    | none => pure []
    | some n => visitItem g n.handle margin
  | .closeGlobal => do
    Gen.closeScope
    pure []
  | .closeTask t => do
    emitTaskEnd t
    pure []
where
  openTask (t : TaskHead) : Gen (List AgendaItem) := do
    emitTaskHeader g t
    let margin := (← get).options.indent
    pure (t.heads.map (.visit · margin) ++ [.closeTask t])

def work (g : Graph) : Context → List AgendaItem → CodeRun × Option GenError
  | c, [] => (⟨c, [], []⟩, none)
  | c, item :: rest =>
    match (perform g item).run.run { c with reports := [] } with
    | (.error e, c) => (⟨c, [], []⟩, some e)
    | (.ok items, c) => match c.reports with
      | [] => work g c rest
      | reports => (⟨{ c with reports := [] }, items ++ rest, reports⟩, none)

def step (run : CodeRun) (g : Graph) : CodeRun × Except GenError (Option CodeReport) :=
  match run.pending with
  | r :: rest => ({ run with pending := rest }, .ok (some r))
  | [] => match work g run.context run.agenda with
    | (run, some e) => (run, .error e)
    | (run, none) => match run.pending with
      | r :: rest => ({ run with pending := rest }, .ok (some r))
      | [] => (run, .ok none)

end CodeRun

end NqcBlocks
