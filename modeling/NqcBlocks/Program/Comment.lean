import NqcBlocks.Graph.Tree
import NqcBlocks.Program.Context
import NqcBlocks.Text.Lines

/-!
# Remarks in code

A remark is written as comment lines, one for each of its lines, without blanks around it. Values have
no line of their own, so their remarks are written above the statement they are plugged into, also
when the value is disabled.
-/

namespace NqcBlocks

def commentLines (s : String) : String :=
  if s.isEmpty then ""
  else String.join ((Text.splitOnChar s '\n').map fun line => "// " ++ Text.strip line ++ "\n")

def Node.commentLines (n : Node) : Gen String :=
  match n.comment.bind Json.truthy? with
  | none => pure ""
  | some (.text s) => pure (NqcBlocks.commentLines s)
  | some _ => throw (.defect (.commentNotText n.handle))

mutual
def BlockTree.comments : BlockTree → Gen String
  | .mk n _ operands _ => do
    let own ← n.commentLines
    let inner ← operandComments operands
    pure (own ++ inner)
def operandComments : Operands → Gen String
  | [] => pure ""
  | (_, none) :: rest => operandComments rest
  | (_, some t) :: rest => do
    let first ← t.comments
    pure (first ++ (← operandComments rest))
end

end NqcBlocks
