/-!
# Precedence

How tightly the operators of NQC bind, from atoms, which bind tightest, to places where anything may
stand. The classes are those of C, and their ranks leave room before the last one.
-/

namespace NqcBlocks.Nqc

inductive Order where
  | atomic
  | unaryPostfix
  | unaryPrefix
  | multiplicative
  | additive
  | shift
  | relational
  | equality
  | bitwiseAnd
  | bitwiseXor
  | bitwiseOr
  | logicalAnd
  | logicalOr
  | conditional
  | assignment
  | none
  deriving DecidableEq, Repr, Inhabited

namespace Order

def all : List Order :=
  [.atomic, .unaryPostfix, .unaryPrefix, .multiplicative, .additive, .shift, .relational,
    .equality, .bitwiseAnd, .bitwiseXor, .bitwiseOr, .logicalAnd, .logicalOr, .conditional,
    .assignment, .none]

def rank : Order → Nat
  | .atomic => 0
  | .unaryPostfix => 1
  | .unaryPrefix => 2
  | .multiplicative => 3
  | .additive => 4
  | .shift => 5
  | .relational => 6
  | .equality => 7
  | .bitwiseAnd => 8
  | .bitwiseXor => 9
  | .bitwiseOr => 10
  | .logicalAnd => 11
  | .logicalOr => 12
  | .conditional => 13
  | .assignment => 14
  | .none => 99

def name : Order → String
  | .atomic => "ATOMIC"
  | .unaryPostfix => "UNARY_POSTFIX"
  | .unaryPrefix => "UNARY_PREFIX"
  | .multiplicative => "MULTIPLICATIVE"
  | .additive => "ADDITIVE"
  | .shift => "SHIFT"
  | .relational => "RELATIONAL"
  | .equality => "EQUALITY"
  | .bitwiseAnd => "BITWISE_AND"
  | .bitwiseXor => "BITWISE_XOR"
  | .bitwiseOr => "BITWISE_OR"
  | .logicalAnd => "LOGICAL_AND"
  | .logicalOr => "LOGICAL_OR"
  | .conditional => "CONDITIONAL"
  | .assignment => "ASSIGNMENT"
  | .none => "NONE"

def ofName? (name : String) : Option Order := all.find? fun o => o.name == name

def needsGrouping (inner required : Order) : Bool := required.rank < inner.rank

end Order

end NqcBlocks.Nqc
