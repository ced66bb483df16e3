import NqcBlocks.Decimal.Shortest

/-!
# Decimal text

The text of a double: the shortest decimal that reads back, written positionally while its point
stands at most four places before its first digit or sixteen places after it, and with an exponent of at least
two digits otherwise. A whole number keeps one zero after the point.
-/

namespace NqcBlocks.Double

structure DecimalLayout where
  leastPosition : Int
  greatestPosition : Int
  exponentWidth : Nat

def layout : DecimalLayout := ⟨-3, 16, 2⟩

def paddedDigits (width n : Nat) : List Char :=
  let ds := Nat.toDigits 10 n
  List.replicate (width - ds.length) '0' ++ ds

def positional (ds : List Char) (position : Int) : List Char :=
  if position ≤ 0 then '0' :: '.' :: (List.replicate (-position).toNat '0' ++ ds)
  else if ds.length ≤ position.toNat then
    ds ++ List.replicate (position.toNat - ds.length) '0' ++ ['.', '0']
  else ds.take position.toNat ++ '.' :: ds.drop position.toNat

def scientific (width : Nat) (ds : List Char) (position : Int) : List Char :=
  let e := position - 1
  let fraction := match ds.drop 1 with
    | [] => []
    | rest => '.' :: rest
  ds.take 1 ++ fraction ++ ['e', if e < 0 then '-' else '+'] ++ paddedDigits width e.natAbs

def decimalText (f : DecimalLayout) (d : Decimal) : List Char :=
  let ds := Nat.toDigits 10 d.digits
  let position := ds.length + d.exponent
  let ds := (ds.reverse.dropWhile (· == '0')).reverse
  if f.leastPosition ≤ position && position ≤ f.greatestPosition then positional ds position
  else scientific f.exponentWidth ds position

def text : Double → String
  | .nan => "nan"
  | .infinite negative => if negative then "-inf" else "inf"
  | .finite negative m e =>
    let sign := if negative then ['-'] else []
    let body := if m == 0 then ['0', '.', '0'] else decimalText layout (shortest m e)
    String.ofList (sign ++ body)

end NqcBlocks.Double
