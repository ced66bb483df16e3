import NqcBlocks.Program.Report

/-!
# Program views

The program as it is written, and which part of it each block wrote. A block that writes twice, as a
task does with its head and its closing brace, has the part from the start of the first piece to the
end of the last one.
-/

namespace NqcBlocks.Viewer

structure Span where
  first : Nat := 0
  last : Nat := 0
  deriving DecidableEq, Repr, Inhabited

/-- **A view of a program**: its text, the part each block wrote, and the part that is selected. -/
structure ProgramView where
  text : String := ""
  spans : List (Handle × Span) := []
  selection : Span := {}
  deriving Repr, Inhabited

namespace ProgramView

def spanOf? (v : ProgramView) (h : Handle) : Option Span := v.spans.lookup h

def setSpan (v : ProgramView) (h : Handle) (s : Span) : ProgramView :=
  { v with spans := v.spans.filter (·.1 != h) ++ [(h, s)] }

def write (v : ProgramView) (node : Option Handle) (code : String) : ProgramView :=
  let start := v.text.length
  let text := v.text ++ code
  let stop := text.length
  let v := { v with text, selection := ⟨start, stop⟩ }
  match node with
  | none => v
  | some h => v.setSpan h ⟨((v.spanOf? h).map Span.first).getD start, stop⟩

def apply (v : ProgramView) (r : CodeReport) : ProgramView :=
  match r.newCode.bind someText with
  | none => v
  | some code => v.write r.node code

def reveal (v : ProgramView) (h : Handle) : ProgramView × Bool :=
  match v.spanOf? h with
  | none => (v, false)
  | some s => ({ v with selection := s }, true)

def position (text : String) (i : Nat) : Nat × Nat :=
  let before := text.toList.take i
  (before.count '\n', (before.reverse.takeWhile (· != '\n')).length)

end ProgramView

end NqcBlocks.Viewer
