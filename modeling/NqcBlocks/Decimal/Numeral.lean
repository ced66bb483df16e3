import NqcBlocks.Decimal.Number
import NqcBlocks.Text.Blank
import NqcBlocks.Text.Digit

/-!
# Numerals

Reading a number from text that a person typed. Blanks around the numeral are ignored (the
information separators `U+001C` to `U+001F` are not ignored here), digits of every script count, and
an underscore may stand between two digits.
-/

namespace NqcBlocks.Numeral

def isPadding (c : Char) : Bool :=
  Text.isBlank c && !(28 ≤ c.toNat && c.toNat ≤ 31)

def plainDigit (c : Char) : Char :=
  match Text.digitValue? c with
  | some d => Char.ofNat (48 + d)
  | none => c

def normalize (s : String) : List Char :=
  (Text.trimChars isPadding s.toList).map plainDigit

def isDigit (c : Char) : Bool := '0' ≤ c && c ≤ '9'

def dropSeparators (afterDigit : Bool) : List Char → Option (List Char)
  | [] => some []
  | '_' :: c :: rest =>
    if afterDigit && isDigit c then (dropSeparators true rest).map (c :: ·) else none
  | c :: rest => if c == '_' then none else (dropSeparators (isDigit c) rest).map (c :: ·)

def digitsValue (ds : List Char) : Nat :=
  ds.foldl (fun n c => 10 * n + (c.toNat - 48)) 0

def splitSign : List Char → Bool × List Char
  | '-' :: rest => (true, rest)
  | '+' :: rest => (false, rest)
  | cs => (false, cs)

def spanDigits (cs : List Char) : List Char × List Char :=
  (cs.takeWhile isDigit, cs.dropWhile isDigit)

def exponent? : List Char → Option Int
  | [] => some 0
  | c :: rest =>
    if c == 'e' || c == 'E' then
      let (negative, rest) := splitSign rest
      let (ds, rest) := spanDigits rest
      if ds.isEmpty || !rest.isEmpty then none
      else some (if negative then -(digitsValue ds : Int) else digitsValue ds)
    else none

def decimal? (negative : Bool) (cs : List Char) : Option Double :=
  let (whole, rest) := spanDigits cs
  let (fraction, rest) := match rest with
    | '.' :: rest => spanDigits rest
    | _ => ([], rest)
  if whole.isEmpty && fraction.isEmpty then none
  else (exponent? rest).map fun e =>
    Double.ofDecimal negative (digitsValue (whole ++ fraction)) (e - fraction.length)

def lower (c : Char) : Char :=
  if 'A' ≤ c && c ≤ 'Z' then Char.ofNat (c.toNat + 32) else c

def word? (negative : Bool) (cs : List Char) : Option Double :=
  let w := String.ofList (cs.map lower)
  if w == "inf" || w == "infinity" then some (.infinite negative)
  else if w == "nan" then some .nan
  else none

def readDouble? (s : String) : Option Double := do
  let cs ← dropSeparators false (normalize s)
  let (negative, cs) := splitSign cs
  (word? negative cs).or (decimal? negative cs)

def maxDigits : Nat := 4300

inductive IntFault where
  | noNumeral
  | tooManyDigits (count : Nat)
  deriving DecidableEq, Repr

/-- **The integer that a text stands for.** The digits in front are counted before what follows them
is looked at, so that a numeral with too many digits is refused for their number whatever comes
after. -/
def readInt (s : String) : Except IntFault Int :=
  let (negative, cs) := splitSign (normalize s)
  let isPart := fun c => isDigit c || c == '_'
  match dropSeparators false (cs.takeWhile isPart) with
  | none => .error .noNumeral
  | some digits =>
    if maxDigits < digits.length then .error (.tooManyDigits digits.length)
    else if digits.isEmpty || !(cs.dropWhile isPart).isEmpty then .error .noNumeral
    else .ok (if negative then -(digitsValue digits : Int) else digitsValue digits)

end NqcBlocks.Numeral
