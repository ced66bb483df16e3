import NqcBlocks.Viewer.Label
import NqcBlocks.Viewer.Styled.Style

/-!
# Styled text

A text in which stretches are set in styles. It is read from a text with tags in brackets: a tag holds
from where it stands to the closing tag that names it, to a closing tag without a name if it is the last
one open, or to the end. What stands in brackets and is no tag is text.
-/

namespace NqcBlocks.Viewer

open Styled

inductive MarkupError where
  | badValue (rest : String)
  | unmatched (tag : String)
  | nothingToClose
  deriving DecidableEq, Repr

def MarkupError.message : MarkupError → String
  | .badValue rest => "Expected markup value (found " ++ Text.quoted rest ++ ")."
  | .unmatched tag => "closing tag '[/" ++ tag ++ "]' does not match any open tag"
  | .nothingToClose => "auto closing tag ('[/]') has nothing to close"

structure Stretch where
  first : Nat
  last : Nat
  tag : String
  deriving DecidableEq, Repr

/-- **A styled text.** -/
structure StyledText where
  chars : List Char
  spans : List Stretch := []
  deriving DecidableEq, Repr

namespace StyledText

/-! ## Reading -/

structure OpenTag where
  first : Nat
  tag : String
  name : String

inductive Part where
  | text
  | opening (tokens : List Token)
  | closing (tokens : List Token)

structure Reading where
  chars : List Char := []
  opened : List OpenTag := []
  spans : List Stretch := []
  part : Part := .text

namespace Reading

def append (r : Reading) (cs : List Char) : Reading := { r with chars := cs.reverse ++ r.chars }

def unescape : List Char → List Char
  | '\\' :: '[' :: rest => '[' :: unescape rest
  | c :: rest => c :: unescape rest
  | [] => []

def close (r : Reading) (tag : OpenTag) : Reading :=
  if tag.first = r.chars.length then r
  else { r with spans := ⟨tag.first, r.chars.length, tag.tag⟩ :: r.spans }

def endOpening (r : Reading) (tokens : List Token) : Reading :=
  let r := { r with part := .text }
  let body := charsOf tokens
  if tokens.any (·.kind = .text) || body.all Text.isBlank then r.append ('[' :: body ++ [']'])
  else { r with opened := ⟨r.chars.length, String.ofList body, styleName tokens⟩ :: r.opened }

def endClosing (r : Reading) (tokens : List Token) : Except MarkupError Reading :=
  let r := { r with part := .text }
  let name := styleName tokens
  if name.isEmpty then
    match r.opened with
    | [] => .error .nothingToClose
    | tag :: opened => .ok { r.close tag with opened }
  else match r.opened.find? fun tag => tag.name == name with
    | none => .error (.unmatched (Text.strip (String.ofList (charsOf tokens))))
    | some tag => .ok { r.close tag with opened := r.opened.eraseP fun tag => tag.name == name }

def step (r : Reading) (t : Token) : Except MarkupError Reading :=
  match r.part with
  | .text => match t.kind with
    | .openTag => .ok { r with part := .opening [] }
    | .openClosing => .ok { r with part := .closing [] }
    | _ => .ok (r.append (unescape t.chars))
  | .opening tokens =>
    if t.kind = .endTag then .ok (r.endOpening tokens.reverse)
    else .ok { r with part := .opening (t :: tokens) }
  | .closing tokens =>
    if t.kind = .endTag then r.endClosing tokens.reverse
    else .ok { r with part := .closing (t :: tokens) }

def finish (r : Reading) : Except MarkupError Reading :=
  match r.part with
  | .text => .ok r
  | .opening tokens => .ok (r.append ('[' :: charsOf tokens.reverse))
  | .closing tokens => r.endClosing tokens.reverse

def result (r : Reading) : StyledText :=
  let spans := (r.opened.foldl close r).spans
  { chars := r.chars.reverse.filter fun c => !isCursorControl c
    spans := spans.mergeSort fun a b => a.first ≤ b.first }

end Reading

def ofMarkup (s : String) : Except MarkupError StyledText :=
  let (tokens, bad) := Styled.tokens s
  match tokens.foldlM Reading.step ({} : Reading) with
  | .error e => .error e
  | .ok r => match bad with
    | some rest => .error (.badValue (String.ofList (rest.takeWhile (· != ';'))))
    | none => r.finish.map Reading.result

/-! ## Tabs and lines -/

def expandChars (width : Nat) : Nat → List Char → List Char
  | _, [] => []
  | column, c :: cs =>
    if c == '\t' then
      let blanks := width - column % width
      List.replicate blanks ' ' ++ expandChars width (column + blanks) cs
    else c :: expandChars width (if c == '\n' then 0 else column + 1) cs

def expandedPlace (width : Nat) (cs : List Char) (place : Nat) : Nat :=
  (expandChars width 0 (cs.take place)).length

def cutAtTabs (cs : List Char) (s : Stretch) : List Stretch :=
  let inner := (List.range s.last).filter fun i => s.first ≤ i && i + 1 < s.last && cs[i]? == some '\t'
  let cuts := inner.map (· + 1)
  ((s.first :: cuts).zip (cuts ++ [s.last])).map fun (first, last) => { s with first, last }

def expandTabs (t : StyledText) (width : Nat) : StyledText :=
  if t.chars.contains '\t' then
    let spans := (t.spans.flatMap (cutAtTabs t.chars)).mergeSort fun a b => a.first ≤ b.first
    { chars := expandChars width 0 t.chars
      spans := spans.map fun s => { s with
        first := expandedPlace width t.chars s.first, last := expandedPlace width t.chars s.last } }
  else t

def firstLine (t : StyledText) : StyledText :=
  if t.chars.contains '\n' then
    let line := t.chars.takeWhile (· != '\n')
    { chars := line
      spans := (t.spans.map fun s => { s with last := min s.last line.length }).filter
        fun s => s.first < s.last }
  else t

/-! ## Writing -/

def afterTagLike? : List Char → Option (List Char)
  | [] => none
  | c :: rest =>
    if c.isLower || c == '#' || c == '/' || c == '@' then
      match rest.dropWhile fun c => c != ']' && c != '[' with
      | ']' :: after => some after
      | _ => none
    else none

def escapeFrom : Nat → Nat → List Char → List Char
  | 0, _, cs => cs
  | _ + 1, _, [] => []
  | fuel + 1, slashes, c :: cs =>
    if c == '\\' then c :: escapeFrom fuel (slashes + 1) cs
    else match if c == '[' then afterTagLike? cs else none with
      | none => c :: escapeFrom fuel 0 cs
      | some after =>
        List.replicate (slashes + 1) '\\' ++ '[' :: cs.take (cs.length - after.length)
          ++ escapeFrom fuel 0 after

def escape (cs : List Char) : List Char :=
  let escaped := escapeFrom cs.length 0 cs
  match escaped.reverse with
  | ['\\'] => ['\\', '\\']
  | '\\' :: c :: _ => if c == '\\' then escaped else escaped ++ ['\\']
  | _ => escaped

/-- A place where a tag is written: how many characters come before, whether it is a closing tag, and
the tag. -/
abbrev Mark := Nat × Bool × String

def marks (t : StyledText) : List Mark :=
  let all := (t.spans.map fun s => (s.first, false, s.tag)) ++ t.spans.map fun s => (s.last, true, s.tag)
  all.mergeSort fun (a : Mark) (b : Mark) => a.1 < b.1 || (a.1 == b.1 && (!a.2.1 || b.2.1))

def writeFrom (cs : List Char) (place : Nat) : List Mark → List Char
  | [] => escape (cs.drop place)
  | (next, closing, tag) :: rest =>
    escape ((cs.take next).drop place) ++ '[' :: (if closing then ['/'] else []) ++ tag.toList
      ++ ']' :: writeFrom cs (max place next) rest

def toMarkup (t : StyledText) : String := String.ofList (writeFrom t.chars 0 t.marks)

end StyledText

def borderLine (s : String) : Except MarkupError String :=
  (StyledText.ofMarkup s).map fun t => ((t.expandTabs 4).firstLine).toMarkup

end NqcBlocks.Viewer
