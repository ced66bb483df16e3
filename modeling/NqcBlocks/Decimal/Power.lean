/-!
# Powers

The powers of the bases that numbers are read and written in.
-/

namespace NqcBlocks

def twoPow (n : Nat) : Nat := Nat.pow 2 n

def tenPow (n : Nat) : Nat := Nat.pow 10 n

def sixteenPow (n : Nat) : Nat := Nat.pow 16 n

end NqcBlocks
