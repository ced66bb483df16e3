import NqcBlocks.Text.Digit

/-!
# Surrogate halves

A document may write a character beyond the first 65536 as two escapes, one for each half of a
surrogate pair. A half that stands alone is not a character, yet a text read from a document can hold
it. Such a half is kept as a stand-in: the half numbered `0xD800 + k` is the `k`th code point of plane
five, a plane in which nothing is assigned. So a text stays a `String`, and the halves in it can still
be told apart, shown and refused where a text has to be encoded.
-/

namespace NqcBlocks.Text

def isHighHalf (n : Nat) : Bool := 0xD800 ≤ n && n ≤ 0xDBFF

def isLowHalf (n : Nat) : Bool := 0xDC00 ≤ n && n ≤ 0xDFFF

def half (n : Nat) : Char := Char.ofNat (0x50000 + (n - 0xD800))

def half? (c : Char) : Option Nat :=
  if 0x50000 ≤ c.toNat && c.toNat < 0x50800 then some (c.toNat - 0x50000 + 0xD800) else none

def charOfUnit (n : Nat) : Char :=
  if isHighHalf n || isLowHalf n then half n else Char.ofNat n

def charOfHalves (high low : Nat) : Char :=
  Char.ofNat (0x10000 + (high - 0xD800) * 0x400 + (low - 0xDC00))

def hasHalf (s : String) : Bool := s.toList.any fun c => (half? c).isSome

def hasUnnameable (s : String) : Bool :=
  s.toList.any fun c => (half? c).any fun n => !(0xDC80 ≤ n && n ≤ 0xDCFF)

end NqcBlocks.Text
