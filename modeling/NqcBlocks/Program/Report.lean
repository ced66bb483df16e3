import NqcBlocks.Graph.Node

/-!
# Progress reports

What generating a program reports as it goes along: which block it looked at, the piece of code it
wrote and the warning it has, if any. The pieces of code put together are the program.
-/

namespace NqcBlocks

structure CodeReport where
  node : Option Handle := none
  message : String
  newCode : Option String := none
  warning : Option String := none
  deriving DecidableEq, Repr, Inhabited

namespace CodeReport

def warn (node : Handle) (text : String) : CodeReport :=
  { node, message := "Warning: " ++ text, warning := text }

def code (reports : List CodeReport) : String :=
  String.join (reports.map fun r => r.newCode.getD "")

theorem code_append (reports reports' : List CodeReport) :
    code (reports ++ reports') = code reports ++ code reports' := by
  unfold code
  rw [List.map_append, String.join_append]

theorem code_cons (report : CodeReport) (reports : List CodeReport) :
    code (report :: reports) = report.newCode.getD "" ++ code reports := by
  unfold code
  rw [List.map_cons, String.join_cons]

theorem code_singleton (report : CodeReport) : code [report] = report.newCode.getD "" := by
  rw [code_cons]
  exact String.append_empty

end CodeReport

def someText (s : String) : Option String := if s.isEmpty then none else some s

end NqcBlocks
