import NqcBlocks.Block.Field
import NqcBlocks.Graph.Node

/-!
# Refused edits

The reasons for which an edit of a block graph, or a look-up in it, is refused.
-/

namespace NqcBlocks

inductive GraphError where
  | noBlock (handle : Int)
  | unknownKind (tag : String)
  | invalidShape (kind : BlockKind) (cause : ShapeError)
  | noField (kind : BlockKind) (field : String)
  | badField (kind : BlockKind) (field : String) (cause : FieldError)
  | noValueSlot (kind : BlockKind) (slot : String)
  | noStatementSlot (kind : BlockKind) (slot : String)
  | unregistered (kind : BlockKind)
  | noOutput (kind : BlockKind) (slot : String)
  | wrongOutput (slot : String) (parent : BlockKind) (expected : Check) (child : BlockKind)
      (produced : Check)
  | notChainable (kind : BlockKind)
  | noNext (kind : BlockKind)
  | cycle (child parent : Node)
  | lost (handle : Handle)
  deriving Repr

def GraphError.message : GraphError → String
  | .noBlock handle => "No block with handle " ++ Number.intText handle ++ " in the graph."
  | .unknownKind tag => "Unknown block kind \"" ++ tag ++ "\"."
  | .invalidShape kind cause =>
    "Invalid shape for block \"" ++ kind.tag ++ "\": " ++ cause.message
  | .noField kind field => "Block \"" ++ kind.tag ++ "\" has no field \"" ++ field ++ "\"."
  | .badField kind field cause => cause.message kind field
  | .noValueSlot kind slot =>
    "Block \"" ++ kind.tag ++ "\" has no value slot \"" ++ slot ++ "\"."
  | .noStatementSlot kind slot =>
    "Block \"" ++ kind.tag ++ "\" has no statement slot \"" ++ slot ++ "\"."
  | .unregistered kind => "Block kind \"" ++ kind.tag ++ "\" is no longer registered."
  | .noOutput kind slot =>
    "Block \"" ++ kind.tag ++ "\" has no output and cannot fill slot \"" ++ slot ++ "\"."
  | .wrongOutput slot parent expected child produced =>
    "Slot \"" ++ slot ++ "\" of \"" ++ parent.tag ++ "\" expects " ++ expected.name ++ ", but \""
      ++ child.tag ++ "\" produces " ++ produced.name ++ "."
  | .notChainable kind =>
    "Block \"" ++ kind.tag ++ "\" cannot be placed in a statement chain."
  | .noNext kind => "Block \"" ++ kind.tag ++ "\" has no next connection."
  | .cycle child parent =>
    "Connecting " ++ child.label ++ " below " ++ parent.label ++ " would create a cycle."
  | .lost handle => "Block " ++ Number.natText handle ++ " is gone."

end NqcBlocks
