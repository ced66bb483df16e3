import NqcBlocks.Decimal.Power
import NqcBlocks.Text.Half
import NqcBlocks.Text.Printable

/-!
# Quoted text

How a text is shown inside a message. It stands between apostrophes, or between quotation marks when
it holds an apostrophe and no quotation mark. The mark that encloses it and the backslash are written
after a backslash, line feeds, carriage returns and tabs as `\n`, `\r` and `\t`, and every other
character that is not printable by its hexadecimal number; a surrogate half that stands alone is shown
by its own number.
-/

namespace NqcBlocks.Text

def hexDigits (width n : Nat) : List Char :=
  (List.range width).reverse.map fun i => Nat.digitChar (n / sixteenPow i % 16)

def quotedChar (mark c : Char) : List Char :=
  if c == mark || c == '\\' then ['\\', c]
  else if c == '\n' then ['\\', 'n']
  else if c == '\r' then ['\\', 'r']
  else if c == '\t' then ['\\', 't']
  else if isPrintable c then [c]
  else if let some n := half? c then '\\' :: 'u' :: hexDigits 4 n
  else if c.toNat < 0x100 then '\\' :: 'x' :: hexDigits 2 c.toNat
  else if c.toNat < 0x10000 then '\\' :: 'u' :: hexDigits 4 c.toNat
  else '\\' :: 'U' :: hexDigits 8 c.toNat

def quoteMark (cs : List Char) : Char :=
  if cs.contains '\'' && !cs.contains '"' then '"' else '\''

def quoted (s : String) : String :=
  let mark := quoteMark s.toList
  String.ofList (mark :: (s.toList.flatMap (quotedChar mark) ++ [mark]))

end NqcBlocks.Text
