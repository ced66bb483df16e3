import NqcBlocks.Table

/-!
# Phases

A viewer takes a program through four phases. Each says what the two panels show and under which
titles.
-/

namespace NqcBlocks.Viewer

inductive PanelContent where
  | directoryTree
  | blockTree
  | warningTable
  | programView
  | hidden
  | other (name : String)
  deriving DecidableEq, Repr, Inhabited

namespace PanelContent

def all : List PanelContent := [.directoryTree, .blockTree, .warningTable, .programView, .hidden]

def name : PanelContent → String
  | .directoryTree => "directory_tree"
  | .blockTree => "block_tree"
  | .warningTable => "warning_table"
  | .programView => "product_code_display"
  | .hidden => "hidden"
  | .other name => name

def ofName (s : String) : PanelContent := (all.find? (·.name == s)).getD (.other s)

def widget : PanelContent → String
  | .directoryTree => "directory-tree"
  | .blockTree => "block-tree"
  | .warningTable => "warning-table"
  | .programView => "product-code-display"
  | .hidden | .other _ => ""

end PanelContent

/-- **The phases**, in order. -/
inductive Phase where
  | input
  | validation
  | generation
  | review
  deriving DecidableEq, Repr, Inhabited

namespace Phase

def all : List Phase := [.input, .validation, .generation, .review]

def name : Phase → String
  | .input => "Workspace Input"
  | .validation => "Validation"
  | .generation => "Code Generation"
  | .review => "Review"

def number : Phase → String
  | .input => "0"
  | .validation => "1"
  | .generation => "2"
  | .review => "3"

def description : Phase → String
  | .input => "A block workspace exported from the editor (JSON)."
  | .validation => "Check the main task and task names; disable offending blocks."
  | .generation => "Generate NQC code from the block workspace."
  | .review => "Generated code next to the warnings collected on the way."

def left : Phase → PanelContent
  | .review => .warningTable
  | _ => .blockTree

def leftTitle : Phase → String
  | .review => "Warnings"
  | _ => "Block workspace"

def right : Phase → PanelContent
  | .input => .hidden
  | .validation => .warningTable
  | .generation | .review => .programView

def rightTitle : Phase → String
  | .input => "File Browser"
  | .validation => "Warnings"
  | .generation | .review => "Generated NQC code"

def barMessage : Phase → String
  | .input => "Please load a workspace (ctrl+L) or the example (ctrl+E), then press ctrl+S to start."
  | _ => ""

def heading (p : Phase) : String := "Step " ++ p.number ++ ": " ++ p.name ++ " - " ++ p.description

def greeting (p : Phase) : String :=
  if p.barMessage.isEmpty then p.name ++ " started" else p.barMessage

def next? : Phase → Option Phase
  | .input => some .validation
  | .validation => some .generation
  | .generation => some .review
  | .review => none

def isStepped : Phase → Bool
  | .validation | .generation => true
  | .input | .review => false

end Phase

end NqcBlocks.Viewer
