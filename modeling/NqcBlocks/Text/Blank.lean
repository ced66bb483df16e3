/-!
# Blank characters

What counts as blank space around a piece of text. The set is that of the Unicode property
`White_Space` together with the four information separators `U+001C` to `U+001F`; the
zero-width characters `U+200B` and `U+FEFF` are not blank. `strip` removes blanks from both ends
and keeps those inside.
-/

namespace NqcBlocks.Text

def isBlank (c : Char) : Bool :=
  let n := c.toNat
  (9 ≤ n && n ≤ 13) || (28 ≤ n && n ≤ 32) || n == 0x85 || n == 0xA0 || n == 0x1680
    || (0x2000 ≤ n && n ≤ 0x200A) || n == 0x2028 || n == 0x2029 || n == 0x202F || n == 0x205F
    || n == 0x3000

def dropTail (p : Char → Bool) (cs : List Char) : List Char :=
  (cs.reverse.dropWhile p).reverse

def trimChars (p : Char → Bool) (cs : List Char) : List Char :=
  dropTail p (cs.dropWhile p)

def strip (s : String) : String :=
  String.ofList (trimChars isBlank s.toList)

def allBlank (s : String) : Bool :=
  s.toList.all isBlank

end NqcBlocks.Text
