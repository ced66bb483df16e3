/-!
# Stretches of characters

A class of characters is written down as the lengths of the stretches of characters outside and inside
of it, which take turns from the first character on.
-/

namespace NqcBlocks.Text

def inStretches : List Nat → Nat → Bool
  | outside :: inside :: rest, n =>
    if n < outside then false
    else if n < outside + inside then true
    else inStretches rest (n - (outside + inside))
  | _, _ => false

end NqcBlocks.Text
