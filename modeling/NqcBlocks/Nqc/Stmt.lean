import NqcBlocks.Nqc.Expr
import NqcBlocks.Text.Lines

/-!
# Statements

The statements of a generated program and their text. Every statement ends its line. The statements of
a body are set in by one margin, which is put in front of each of their lines, line by line of the
text that they have by themselves.
-/

namespace NqcBlocks.Nqc

inductive Stmt where
  | comment (lines : String)
  | call (function : String) (arguments : List Expr)
  | assign (name : String) (value : Expr)
  | expression (value : Expr)
  | start (task : String)
  | stop (task : String)
  | repeatTimes (count : Expr) (body : List Stmt)
  | forever (body : List Stmt)
  | doUntil (body : List Stmt) (condition : Expr)
  | branches (arms : List (Expr × List Stmt)) (otherwise : Option (List Stmt))
  deriving Repr, Inhabited

def braced (margin statements : String) : String :=
  "\x7b\n" ++ Text.prefixLines statements margin ++ "\x7d"

mutual
def Stmt.text (margin : String) : Stmt → String
  | .comment lines => lines
  | .call function arguments =>
    function ++ "(" ++ ", ".intercalate (arguments.map Expr.text) ++ ");\n"
  | .assign name value => name ++ " = " ++ value.text ++ ";\n"
  | .expression value => value.text ++ ";\n"
  | .start task => "start " ++ task ++ ";\n"
  | .stop task => "stop " ++ task ++ ";\n"
  | .repeatTimes count body =>
    "repeat(" ++ count.text ++ ") " ++ braced margin (stmtsText margin body) ++ "\n"
  | .forever body => "while(true) " ++ braced margin (stmtsText margin body) ++ "\n"
  | .doUntil body condition =>
    "do " ++ braced margin (stmtsText margin body) ++ " while (!(" ++ condition.text ++ "));\n"
  | .branches arms none => armsText margin "if" arms ++ "\n"
  | .branches arms (some otherwise) =>
    armsText margin "if" arms ++ " else " ++ braced margin (stmtsText margin otherwise) ++ "\n"
def stmtsText (margin : String) : List Stmt → String
  | [] => ""
  | s :: rest => s.text margin ++ stmtsText margin rest
def armsText (margin word : String) : List (Expr × List Stmt) → String
  | [] => ""
  | (condition, body) :: rest =>
    word ++ " (" ++ condition.text ++ ") " ++ braced margin (stmtsText margin body)
      ++ armsText margin " else if" rest
end

end NqcBlocks.Nqc
