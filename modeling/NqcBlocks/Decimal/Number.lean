import NqcBlocks.Decimal.Text

/-!
# Numbers

A number of a document is an integer of any size when it is written without point and exponent, and
a double otherwise; `2` and `2.0` are told apart. Comparison is exact across the two.
-/

namespace NqcBlocks

inductive Number where
  | int (value : Int)
  | double (value : Double)
  deriving DecidableEq, Repr, Inhabited

namespace Number

def dyadic? : Number → Option (Int × Int)
  | .int n => some (n, 0)
  | .double (.finite s m e) => some (if s then -(m : Int) else m, e)
  | .double _ => none

def dyadicLt (n₁ e₁ n₂ e₂ : Int) : Bool :=
  let e := min e₁ e₂
  n₁ * twoPow (e₁ - e).toNat < n₂ * twoPow (e₂ - e).toNat

def lt (a b : Number) : Bool :=
  match a.dyadic?, b.dyadic? with
  | some (n₁, e₁), some (n₂, e₂) => dyadicLt n₁ e₁ n₂ e₂
  | some _, none => b == .double (.infinite false)
  | none, some _ => a == .double (.infinite true)
  | none, none => a == .double (.infinite true) && b == .double (.infinite false)

def isOrdered (a : Number) : Bool := a != .double .nan

def isNegative (a : Number) : Bool := a.lt (.int 0)

def isZero : Number → Bool
  | .int n => n == 0
  | .double d => d.isZero

def natText (n : Nat) : String := String.ofList (Nat.toDigits 10 n)

def intText (n : Int) : String :=
  String.ofList ((if n < 0 then ['-'] else []) ++ Nat.toDigits 10 n.natAbs)

def text : Number → String
  | .int n => intText n
  | .double d => d.text

def wholeAsInt : Number → Number
  | .int n => .int n
  | .double d => if d.isWhole then (d.truncate?.map Number.int).getD (.double d) else .double d

def code (a : Number) : String := a.wholeAsInt.text

end Number

end NqcBlocks
