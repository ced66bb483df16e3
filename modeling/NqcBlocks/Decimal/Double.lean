import NqcBlocks.Decimal.Power

/-!
# Doubles

Numbers with a fractional part or an exponent are held as **doubles**: 53 binary digits and an
exponent, with the two infinities and a value that is not a number. A finite double is kept as the
integers that define it, so that every operation is exact arithmetic followed by one rounding, and
equality is equality of the data.
-/

namespace NqcBlocks

inductive Double where
  | finite (negative : Bool) (significand : Nat) (exponent : Int)
  | infinite (negative : Bool)
  | nan
  deriving DecidableEq, Repr, Inhabited

namespace Double

def leastExponent : Int := -1074

def greatestExponent : Int := 971

def divEven (num den : Nat) : Nat :=
  let q := num / den
  let r := num % den
  if 2 * r > den || (2 * r == den && q % 2 == 1) then q + 1 else q

def shifted (num den : Nat) (e : Int) : Nat × Nat :=
  if 0 ≤ e then (num, den * twoPow e.toNat) else (num * twoPow (-e).toNat, den)

def exponentOf (num den : Nat) : Int :=
  let e : Int := (num.log2 : Int) - (den.log2 : Int) - 53
  let (n, d) := shifted num den e
  max leastExponent (if n / d < twoPow 53 then e else e + 1)

def round (negative : Bool) (num den : Nat) : Double :=
  if num == 0 then .finite negative 0 leastExponent
  else
    let e := exponentOf num den
    let (n, d) := shifted num den e
    let m := divEven n d
    let (m, e) := if m == twoPow 53 then (twoPow 52, e + 1) else (m, e)
    if e > greatestExponent then .infinite negative else .finite negative m e

def ofDecimal (negative : Bool) (digits : Nat) (exponent : Int) : Double :=
  let position := (Nat.toDigits 10 digits).length + exponent
  if digits == 0 || position < -400 then .finite negative 0 leastExponent
  else if position > 400 then .infinite negative
  else if 0 ≤ exponent then round negative (digits * tenPow exponent.toNat) 1
  else round negative digits (tenPow (-exponent).toNat)

def scaleInt (n : Nat) (e : Int) : Nat :=
  if 0 ≤ e then n * twoPow e.toNat else n / twoPow (-e).toNat

def isWhole : Double → Bool
  | .finite _ m e => 0 ≤ e || m % twoPow (-e).toNat == 0
  | _ => false

def truncate? : Double → Option Int
  | .finite negative m e =>
    let n : Int := scaleInt m e
    some (if negative then -n else n)
  | _ => none

def isZero : Double → Bool
  | .finite _ m _ => m == 0
  | _ => false

def neg : Double → Double
  | .finite s m e => .finite (!s) m e
  | .infinite s => .infinite (!s)
  | .nan => .nan

def units (negative : Bool) (m : Nat) (own e : Int) : Int :=
  let n : Int := m * twoPow (own - e).toNat
  if negative then -n else n

def add : Double → Double → Double
  | .finite s₁ m₁ e₁, .finite s₂ m₂ e₂ =>
    let e := min e₁ e₂
    let n := units s₁ m₁ e₁ e + units s₂ m₂ e₂ e
    let negative := if n == 0 then s₁ && s₂ else n < 0
    if 0 ≤ e then round negative (n.natAbs * twoPow e.toNat) 1
    else round negative n.natAbs (twoPow (-e).toNat)
  | .infinite s₁, .infinite s₂ => if s₁ == s₂ then .infinite s₁ else .nan
  | .infinite s, .finite .. => .infinite s
  | .finite .., .infinite s => .infinite s
  | _, _ => .nan

def sub (a b : Double) : Double := a.add b.neg

end Double

end NqcBlocks
