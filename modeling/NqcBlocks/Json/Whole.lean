import NqcBlocks.Decimal.Numeral
import NqcBlocks.Json.Basic

/-!
# Whole numbers in documents

A count may be given as an integer, as a double (its whole part counts), as a truth value (zero or
one) or as a numeral in a text. `Json.whole` reads it, with the reason when it cannot.
-/

namespace NqcBlocks.Json

inductive WholeError where
  | notNumeric (type : String)
  | badNumeral (s : String)
  | tooManyDigits (count : Nat)
  | notANumber
  | infinite
  deriving DecidableEq, Repr

def shownNumeral (s : String) : String := String.ofList ((Text.quoted s).toList.take 200)

def WholeError.message : WholeError → String
  | .notNumeric t =>
    "int() argument must be a string, a bytes-like object or a real number, not '" ++ t ++ "'"
  | .badNumeral s => "invalid literal for int() with base 10: " ++ shownNumeral s
  | .tooManyDigits count =>
    "Exceeds the limit (" ++ Number.natText Numeral.maxDigits
      ++ " digits) for integer string conversion: value has " ++ Number.natText count
      ++ " digits; use sys.set_int_max_str_digits() to increase the limit"
  | .notANumber => "cannot convert float NaN to integer"
  | .infinite => "cannot convert float infinity to integer"

def whole : Json → Except WholeError Int
  | .null => .error (.notNumeric "NoneType")
  | .bool b => .ok (if b then 1 else 0)
  | .number (.int n) => .ok n
  | .number (.double d) => match d with
    | .nan => .error .notANumber
    | .infinite _ => .error .infinite
    | .finite .. => .ok (d.truncate?.getD 0)
  | .text s => match Numeral.readInt s with
    | .ok n => .ok n
    | .error .noNumeral => .error (.badNumeral s)
    | .error (.tooManyDigits count) => .error (.tooManyDigits count)
  | .list _ => .error (.notNumeric "list")
  | .object _ => .error (.notNumeric "dict")

end NqcBlocks.Json
