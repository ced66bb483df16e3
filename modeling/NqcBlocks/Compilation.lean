import NqcBlocks.Session

/-!
# Compiling a graph

Validation and generation in one go: what `Session` does step by step, for a graph nobody edits
meanwhile.
-/

namespace NqcBlocks

structure Compilation where
  graph : Graph
  validation : List ValidationReport
  reports : List CodeReport
  error : Option GenError

namespace Compilation

def ofGraph (g : Graph) (options : Options := {}) (validating : Bool := true) : Compilation :=
  let (g, validation) := if validating then g.review else (g, [])
  let (reports, error) := Generation.run g options
  { graph := g, validation, reports, error }

def code (c : Compilation) : String := CodeReport.code c.reports

def warnings (c : Compilation) : List Warning :=
  c.validation.filterMap (fun r => (r.warning.bind someText).map (some r.node, ·))
    ++ c.reports.filterMap fun r => (r.warning.bind someText).map (r.node, ·)

end Compilation

end NqcBlocks
