import NqcBlocks.Text.Blank
import NqcBlocks.Text.Lines
import NqcBlocks.Text.Quoted
import NqcBlocks.Text.Word

/-!
# Tokens of styled text

A text that asks for styles by tags in brackets is read as a list of tokens. How it goes on depends on
what is being read:
-/

namespace NqcBlocks.Viewer.Styled

inductive Bracket where
  | round
  | square
  | curly
  deriving DecidableEq, Repr

inductive TokenKind where
  | text
  | openTag
  | openClosing
  | endTag
  | key
  | percent
  | color
  | word
  | reference
  | blank
  | opening (b : Bracket)
  | closing (b : Bracket)
  | other
  deriving DecidableEq, Repr

structure Token where
  kind : TokenKind
  chars : List Char
  deriving DecidableEq, Repr

/-! ## Single tokens

Each function gives what is left after its token, if the characters start with one. -/

def isNameChar (c : Char) : Bool := c.isAlpha || c == '_' || c == '-'

def isKeyChar (c : Char) : Bool := isNameChar c || c.isDigit

def isAnyDigit (c : Char) : Bool := (Text.digitValue? c).isSome

def afterRun? (p : Char → Bool) : List Char → Option (List Char)
  | [] => none
  | c :: cs => if p c then some (cs.dropWhile p) else none

def afterChar? (expected : Char) : List Char → Option (List Char)
  | [] => none
  | c :: cs => if c == expected then some cs else none

def afterDecimal? (cs : List Char) : Option (List Char) :=
  (afterRun? isAnyDigit ((afterChar? '-' cs).getD cs)).map fun rest =>
    match rest with
    | '.' :: fraction => fraction.dropWhile isAnyDigit
    | rest => rest

def afterPercent? (cs : List Char) : Option (List Char) :=
  (afterDecimal? cs).bind (afterChar? '%')

def afterKey? : List Char → Option (List Char)
  | [] => none
  | c :: cs => if isNameChar c || c == '@' then afterChar? '=' (cs.dropWhile isKeyChar) else none

def afterReference? (cs : List Char) : Option (List Char) :=
  (afterChar? '$' cs).bind (afterRun? isKeyChar)

def afterHexColor? (cs : List Char) : Option (List Char) :=
  (afterChar? '#' cs).bind fun digits =>
    let count := (digits.takeWhile fun c => (Text.hexDigit? c).isSome).length
    ([8, 6, 4, 3].find? (· ≤ count)).map digits.drop

def afterParts? : List (List Char → Option (List Char)) → List Char → Option (List Char)
  | [], cs => some cs
  | [part], cs => part cs
  | part :: parts, cs => do
    let rest ← part cs
    let rest ← afterChar? ',' (rest.dropWhile Text.isBlank)
    afterParts? parts (rest.dropWhile Text.isBlank)

def colorFunctions : List (String × List (List Char → Option (List Char))) :=
  [("rgb(", [afterDecimal?, afterDecimal?, afterDecimal?]),
   ("rgba(", [afterDecimal?, afterDecimal?, afterDecimal?, afterDecimal?]),
   ("hsl(", [afterDecimal?, afterPercent?, afterPercent?]),
   ("hsla(", [afterDecimal?, afterPercent?, afterPercent?, afterDecimal?])]

def afterColorFunction? (cs : List Char) : Option (List Char) :=
  colorFunctions.findSome? fun (name, parts) =>
    if name.toList.isPrefixOf cs then do
      let rest ← afterParts? parts ((cs.drop name.length).dropWhile Text.isBlank)
      afterChar? ')' (rest.dropWhile Text.isBlank)
    else none

def afterQuoted? : List Char → Option (List Char)
  | [] => none
  | mark :: cs =>
    if mark == '"' || mark == '\'' then afterChar? mark (cs.dropWhile (· != mark)) else none

def firstOf (options : List (TokenKind × (List Char → Option (List Char)))) (cs : List Char) :
    Option (TokenKind × List Char) :=
  options.findSome? fun (kind, after?) => (after? cs).map (kind, ·)

def plainToken? (before : Option Char) (cs : List Char) : Option (TokenKind × List Char) :=
  if before == some '\\' then none
  else match cs with
    | '[' :: '/' :: rest => some (.openClosing, rest)
    | '[' :: rest => some (.openTag, rest)
    | _ => none

def tagToken? (before : Option Char) (cs : List Char) : Option (TokenKind × List Char) :=
  firstOf
    [(.endTag, fun cs => if before == some '\\' then none else afterChar? ']' cs),
     (.key, afterKey?), (.percent, afterPercent?), (.color, afterHexColor?),
     (.color, afterColorFunction?), (.word, afterRun? isNameChar), (.reference, afterReference?),
     (.blank, afterRun? Text.isBlank)] cs

def valueToken? (cs : List Char) : Option (TokenKind × List Char) :=
  firstOf
    [(.word, afterRun? fun c => c == '.' || Text.isWordChar c),
     (.opening .round, afterChar? '('), (.opening .square, afterChar? '['),
     (.opening .curly, afterChar? '\x7b'), (.closing .round, afterChar? ')'),
     (.closing .square, afterChar? ']'), (.closing .curly, afterChar? '\x7d'),
     (.other, afterChar? ','), (.blank, afterRun? Text.isBlank), (.other, afterQuoted?)] cs

/-! ## Whole texts -/

inductive Mode where
  | plain
  | tag
  | value (opened : List Bracket)
  deriving DecidableEq, Repr

def Mode.next (mode : Mode) (kind : TokenKind) : TokenKind × Mode :=
  match mode, kind with
  | _, .openTag | _, .openClosing => (kind, .tag)
  | _, .endTag => (kind, .plain)
  | _, .key => (kind, .value [])
  | .value opened, .opening b => (kind, .value (b :: opened))
  | .value [], .closing _ => (.endTag, .plain)
  | .value (last :: opened), .closing b =>
    (kind, if b = last then .value opened else .value (last :: opened))
  | mode, kind => (kind, mode)

def upToToken (token? : Option Char → List Char → Option (TokenKind × List Char)) :
    Option Char → List Char → List Char × List Char
  | _, [] => ([], [])
  | before, c :: cs =>
    if (token? before (c :: cs)).isSome then ([], c :: cs)
    else let (skipped, rest) := upToToken token? (some c) cs; (c :: skipped, rest)

def nextToken? (mode : Mode) (before : Option Char) (cs : List Char) :
    Option (TokenKind × List Char) :=
  let find (token? : Option Char → List Char → Option (TokenKind × List Char)) :=
    match upToToken token? before cs with
    | ([], rest) => token? before rest
    | (_, rest) => some (.text, rest)
  match mode with
  | .plain => find plainToken?
  | .tag => find tagToken?
  | .value _ => valueToken? cs

def tokensFrom : Nat → Mode → Option Char → List Char → List (List Char) →
    List Token × Option (List Char)
  | 0, _, _, _, _ => ([], none)
  | _ + 1, _, _, [], [] => ([], none)
  | fuel + 1, mode, _, [], line :: lines => tokensFrom fuel mode none line lines
  | fuel + 1, mode, before, cs, lines => match nextToken? mode before cs with
    | none => ([], some cs)
    | some (kind, rest) =>
      let chars := cs.take (cs.length - rest.length)
      let (kind, mode) := mode.next kind
      let (tokens, bad) := tokensFrom fuel mode (chars.getLast?.or before) rest lines
      (⟨kind, chars⟩ :: tokens, bad)

def tokens (s : String) : List Token × Option (List Char) :=
  tokensFrom (2 * s.length + 2) .plain none [] (Text.splitLines s.toList)

end NqcBlocks.Viewer.Styled
