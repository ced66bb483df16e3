import NqcBlocks.Nqc.Order

/-!
# Expressions

The expressions of a generated program and their text. Parentheses are written for a group and around
the operand of a negation that is more than an atom, and nowhere else: whether the text of an
expression reads back as the expression is a question about the blocks, not taken care of here.
-/

namespace NqcBlocks.Nqc

inductive Operator where
  | add
  | subtract
  | multiply
  | divide
  | equal
  | notEqual
  | less
  | lessEqual
  | greater
  | greaterEqual
  | and
  | or
  deriving DecidableEq, Repr, Inhabited

namespace Operator

def symbol : Operator → String
  | .add => "+"
  | .subtract => "-"
  | .multiply => "*"
  | .divide => "/"
  | .equal => "=="
  | .notEqual => "!="
  | .less => "<"
  | .lessEqual => "<="
  | .greater => ">"
  | .greaterEqual => ">="
  | .and => "&&"
  | .or => "||"

def order : Operator → Order
  | .add | .subtract => .additive
  | .multiply | .divide => .multiplicative
  | .equal | .notEqual | .less | .lessEqual | .greater | .greaterEqual => .relational
  | .and => .logicalAnd
  | .or => .logicalOr

end Operator

inductive Expr where
  | literal (text : String) (order : Order)
  | variable (name : String)
  | binary (op : Operator) (left right : Expr)
  | negate (operand : Expr)
  | group (inner : Expr)
  deriving DecidableEq, Repr, Inhabited

namespace Expr

def atom (text : String) : Expr := .literal text .atomic

def order : Expr → Order
  | .literal _ order => order
  | .variable _ => .atomic
  | .binary op _ _ => op.order
  | .negate _ => .unaryPrefix
  | .group _ => .atomic

def text : Expr → String
  | .literal text _ => text
  | .variable name => name
  | .binary op left right => left.text ++ " " ++ op.symbol ++ " " ++ right.text
  | .negate operand =>
    if operand.order = .atomic then "!" ++ operand.text else "!(" ++ operand.text ++ ")"
  | .group inner => "(" ++ inner.text ++ ")"

end Expr

end NqcBlocks.Nqc
