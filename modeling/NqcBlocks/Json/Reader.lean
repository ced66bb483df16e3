import NqcBlocks.Decimal.Numeral
import NqcBlocks.Json.Basic

/-!
# Reading documents

`Json.parse` reads a document from text. Beyond the standard it accepts the words `NaN`, `Infinity`
and `-Infinity`; an object that repeats a key keeps the key's first place and its last value. A text
that is no document is refused with the cause and the place of the first fault, counted in
characters. A document beyond what is read at all, because an integer has too many digits or its
parts lie too deep, is refused for that limit where the reader reaches it.
-/

namespace NqcBlocks.Json

inductive Fault where
  | byteOrderMark
  | expectingValue
  | expectingName
  | expectingColon
  | expectingComma
  | extraData
  | unterminatedText
  | controlCharacter
  | invalidEscape
  | invalidUnicodeEscape
  deriving DecidableEq, Repr

def Fault.message : Fault → String
  | .byteOrderMark => "Unexpected UTF-8 BOM (decode using utf-8-sig)"
  | .expectingValue => "Expecting value"
  | .expectingName => "Expecting property name enclosed in double quotes"
  | .expectingColon => "Expecting ':' delimiter"
  | .expectingComma => "Expecting ',' delimiter"
  | .extraData => "Extra data"
  | .unterminatedText => "Unterminated string starting at"
  | .controlCharacter => "Invalid control character at"
  | .invalidEscape => "Invalid \\escape"
  | .invalidUnicodeEscape => "Invalid \\uXXXX escape"

inductive Limit where
  | digits
  | depth
  deriving DecidableEq, Repr

def maxDepth : Nat := 990

inductive Refusal where
  | fault (fault : Fault) (left : Nat)
  | limit (what : Limit)
  deriving DecidableEq, Repr

/-- The result of reading from the front of some characters: what was read and what is left. -/
abbrev Read (α : Type) := Except Refusal (α × List Char)

def refuse {α : Type} (fault : Fault) (cs : List Char) : Except Refusal α :=
  .error (.fault fault cs.length)

def isGap (c : Char) : Bool := c == ' ' || c == '\t' || c == '\n' || c == '\r'

def skipGap (cs : List Char) : List Char := cs.dropWhile isGap

def hex4? : List Char → Option (Nat × List Char)
  | a :: b :: c :: d :: rest => do
    let a ← Text.hexDigit? a
    let b ← Text.hexDigit? b
    let c ← Text.hexDigit? c
    let d ← Text.hexDigit? d
    some (((a * 16 + b) * 16 + c) * 16 + d, rest)
  | _ => none

def simpleEscape? : Char → Option Char
  | '"' => some '"'
  | '\\' => some '\\'
  | '/' => some '/'
  | 'b' => some '\x08'
  | 'f' => some '\x0c'
  | 'n' => some '\n'
  | 'r' => some '\r'
  | 't' => some '\t'
  | _ => none

def unicodeEscape (n : Nat) (rest : List Char) : Except Refusal (Char × List Char) :=
  let single := (Text.charOfUnit n, rest)
  if Text.isHighHalf n then
    match rest with
    | '\\' :: 'u' :: low =>
      if (low.drop 4).isEmpty then .ok single
      else match hex4? low with
        | none => refuse .invalidUnicodeEscape ('u' :: low)
        | some (m, rest') =>
          if Text.isLowHalf m then .ok (Text.charOfHalves n m, rest') else .ok single
    | _ => .ok single
  else .ok single

def readChars (opened : List Char) : Nat → List Char → List Char → Read String
  | 0, _, _ => .error (.fault .unterminatedText (opened.length + 1))
  | _, _, [] => .error (.fault .unterminatedText (opened.length + 1))
  | fuel + 1, acc, c :: rest =>
    if c == '"' then .ok (String.ofList acc.reverse, rest)
    else if c == '\\' then
      match rest with
      | [] => .error (.fault .unterminatedText (opened.length + 1))
      | 'u' :: digits =>
        if (digits.drop 4).isEmpty then refuse .invalidUnicodeEscape rest
        else match hex4? digits with
          | none => refuse .invalidUnicodeEscape rest
          | some (n, rest') => match unicodeEscape n rest' with
            | .error e => .error e
            | .ok (c, rest'') => readChars opened fuel (c :: acc) rest''
      | e :: rest' => match simpleEscape? e with
        | none => refuse .invalidEscape (c :: rest)
        | some c => readChars opened fuel (c :: acc) rest'
    else if c.toNat < 32 then refuse .controlCharacter (c :: rest)
    else readChars opened fuel (c :: acc) rest

def readText (fuel : Nat) (cs : List Char) : Read String :=
  readChars cs fuel [] cs

def fraction? : List Char → Option (List Char × List Char)
  | '.' :: c :: rest => if Numeral.isDigit c then some (Numeral.spanDigits (c :: rest)) else none
  | _ => none

def exponent? : List Char → Option (Int × List Char)
  | c :: rest =>
    if c == 'e' || c == 'E' then
      let (negative, rest) := Numeral.splitSign rest
      let (ds, rest) := Numeral.spanDigits rest
      if ds.isEmpty then none
      else
        let n : Int := Numeral.digitsValue ds
        some (if negative then -n else n, rest)
    else none
  | [] => none

def wholeDigits? : List Char → Option (List Char × List Char)
  | '0' :: rest => some (['0'], rest)
  | c :: rest => if Numeral.isDigit c then some (Numeral.spanDigits (c :: rest)) else none
  | [] => none

def number? (cs : List Char) : Option (Except Limit Number × List Char) := do
  let (negative, rest) := match cs with
    | '-' :: rest => (true, rest)
    | _ => (false, cs)
  let (whole, rest) ← wholeDigits? rest
  let (fraction, rest, hasFraction) := match fraction? rest with
    | some (ds, rest) => (ds, rest, true)
    | none => ([], rest, false)
  let (e, rest, hasExponent) := match exponent? rest with
    | some (e, rest) => (e, rest, true)
    | none => (0, rest, false)
  if hasFraction || hasExponent then
    let digits := Numeral.digitsValue (whole ++ fraction)
    some (.ok (.double (Double.ofDecimal negative digits (e - fraction.length))), rest)
  else if Numeral.maxDigits < whole.length then some (.error .digits, rest)
  else
    let n : Int := Numeral.digitsValue whole
    some (.ok (.int (if negative then -n else n)), rest)

def words : List (String × Json) :=
  [("null", .null), ("true", .bool true), ("false", .bool false),
    ("NaN", .number (.double .nan)), ("Infinity", .number (.double (.infinite false))),
    ("-Infinity", .number (.double (.infinite true)))]

def after? : List Char → List Char → Option (List Char)
  | [], cs => some cs
  | _ :: _, [] => none
  | w :: word, c :: cs => if w == c then after? word cs else none

def word? (cs : List Char) : Option (Json × List Char) :=
  words.findSome? fun (w, j) => (after? w.toList cs).map (j, ·)

def readScalar (cs : List Char) : Read Json :=
  match word? cs with
  | some r => .ok r
  | none => match number? cs with
    | some (.ok n, rest) => .ok (.number n, rest)
    | some (.error what, _) => .error (.limit what)
    | none => refuse .expectingValue cs

mutual
def readValue (depth : Nat) : Nat → List Char → Read Json
  | 0, cs => refuse .expectingValue cs
  | _, [] => refuse .expectingValue []
  | fuel + 1, c :: rest =>
    if c == '"' then (readText fuel rest).map fun (s, rest) => (.text s, rest)
    else if c == '\x7b' then
      if depth == 0 then .error (.limit .depth)
      else match skipGap rest with
        | '\x7d' :: rest => .ok (.object [], rest)
        | rest => readMembers (depth - 1) fuel [] rest
    else if c == '[' then
      if depth == 0 then .error (.limit .depth)
      else match skipGap rest with
        | ']' :: rest => .ok (.list [], rest)
        | rest => readItems (depth - 1) fuel [] rest
    else readScalar (c :: rest)
def readMembers (depth : Nat) : Nat → Table Json → List Char → Read Json
  | 0, _, cs => refuse .expectingName cs
  | fuel + 1, acc, cs =>
    match cs with
    | '"' :: rest => match readText fuel rest with
      | .error e => .error e
      | .ok (key, rest) => match skipGap rest with
        | ':' :: rest => match readValue depth fuel (skipGap rest) with
          | .error e => .error e
          | .ok (value, rest) =>
            let acc := acc.insert key value
            match skipGap rest with
            | '\x7d' :: rest => .ok (.object acc, rest)
            | ',' :: rest => readMembers depth fuel acc (skipGap rest)
            | rest => refuse .expectingComma rest
        | rest => refuse .expectingColon rest
    | _ => refuse .expectingName cs
def readItems (depth : Nat) : Nat → List Json → List Char → Read Json
  | 0, _, cs => refuse .expectingValue cs
  | fuel + 1, acc, cs => match readValue depth fuel cs with
    | .error e => .error e
    | .ok (value, rest) => match skipGap rest with
      | ']' :: rest => .ok (.list (value :: acc).reverse, rest)
      | ',' :: rest => readItems depth fuel (value :: acc) (skipGap rest)
      | rest => refuse .expectingComma rest
end

structure LocatedFault where
  fault : Fault
  position : Nat
  line : Nat
  column : Nat
  deriving DecidableEq, Repr

def LocatedFault.message (e : LocatedFault) : String :=
  e.fault.message ++ ": line " ++ Number.natText e.line ++ " column " ++ Number.natText e.column ++ " (char "
    ++ Number.natText e.position ++ ")"

inductive ParseError where
  | fault (cause : LocatedFault)
  | limit (what : Limit)
  deriving DecidableEq, Repr

def Refusal.locate (r : Refusal) (cs : List Char) : ParseError :=
  match r with
  | .limit what => .limit what
  | .fault cause left =>
    let before := cs.take (cs.length - left)
    .fault
      { fault := cause
        position := before.length
        line := before.count '\n' + 1
        column := (before.reverse.takeWhile (· != '\n')).length + 1 }

def readDocument (cs : List Char) : Except Refusal Json :=
  match cs with
  | '﻿' :: _ => refuse .byteOrderMark cs
  | _ => match readValue maxDepth (2 * cs.length + 2) (skipGap cs) with
    | .error e => .error e
    | .ok (j, rest) => match skipGap rest with
      | [] => .ok j
      | rest => refuse .extraData rest

def parse (s : String) : Except ParseError Json :=
  match readDocument s.toList with
  | .ok j => .ok j
  | .error r => .error (r.locate s.toList)

end NqcBlocks.Json
