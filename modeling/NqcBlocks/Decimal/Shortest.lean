import NqcBlocks.Decimal.Double

/-!
# Shortest decimals

A double is written with **the fewest decimal digits that read back as the same double**, and of the
decimals with that many digits the nearest. The numbers that read back as `m * 2 ^ q` fill an interval
half a step wide on each side, its ends included when `m` is even; below a power of two the lower half
step is half as wide. On the grid of decimals with `n` digits only the two neighbours of the value
need to be tried, since no other point of the grid is in the interval when neither of them is.
-/

namespace NqcBlocks.Double

structure Decimal where
  digits : Nat
  exponent : Int
  deriving DecidableEq, Repr

def tenPower (e : Int) : Nat × Nat :=
  if 0 ≤ e then (tenPow e.toNat, 1) else (1, tenPow (-e).toNat)

def quarterStep (q : Int) : Nat × Nat :=
  if 2 ≤ q then (twoPow (q - 2).toNat, 1) else (1, twoPow (2 - q).toNat)

def pointPosition (num den : Nat) : Int :=
  (Nat.toDigits 10 (num * tenPow 400 / den)).length - 400

def neighbour? (closed : Bool) (low high top bottom : Nat) : Option Nat :=
  let reads (d : Nat) : Bool :=
    if closed then low ≤ d * bottom && d * bottom ≤ high else low < d * bottom && d * bottom < high
  let down := top / bottom
  let twice := 2 * (top % bottom)
  let nearer := if twice > bottom || (twice == bottom && down % 2 == 1) then down + 1 else down
  let other := if nearer == down then down + 1 else down
  if reads nearer then some nearer else if reads other then some other else none

def lowEnd (m : Nat) (q : Int) : Nat :=
  if m == twoPow 52 && q > leastExponent then 4 * m - 1 else 4 * m - 2

def decimalOf? (m : Nat) (q : Int) (n : Nat) : Option Decimal :=
  let s := quarterStep q
  let g := pointPosition (4 * m * s.1) s.2 - n
  let step := tenPower g
  -- the ends and the value are numerators over `s.2 * step.1`, on the grid whose step is `10 ^ g`
  (neighbour? (m % 2 == 0) (lowEnd m q * s.1 * step.2) ((4 * m + 2) * s.1 * step.2)
    (4 * m * s.1 * step.2) (s.2 * step.1)).map fun digits => ⟨digits, g⟩

def shortest (m : Nat) (q : Int) : Decimal :=
  ((List.range 17).findSome? fun i => decimalOf? m q (i + 1)).getD ⟨m, q⟩

end NqcBlocks.Double
