import NqcBlocks.Graph.Node

/-!
# Labels

The one line by which a viewer shows something, and the style it is shown in. For a block the line is
its kind, its handle, its field values and its warning, in a style that tells whether it is disabled or
carries a warning. Characters that would move a terminal's cursor are left out, and of several lines a
tree shows the first.
-/

namespace NqcBlocks.Viewer

structure Label where
  text : String
  style : String := ""
  deriving DecidableEq, Repr, Inhabited

def isCursorControl (c : Char) : Bool :=
  let n := c.toNat
  n == 7 || n == 8 || n == 11 || n == 12 || n == 13

namespace Label

def of (text style : String) : Label :=
  ⟨String.ofList (text.toList.filter fun c => !isCursorControl c), style⟩

def firstLine (l : Label) : Label :=
  { l with text := String.ofList (l.text.toList.takeWhile (· != '\n')) }

end Label

def position (count : Nat) (i : Int) : Nat :=
  if 0 ≤ i then i.toNat else if 0 ≤ count + i then (count + i).toNat else count

def blockLabel (n : Node) : Label :=
  let fields := ", ".intercalate (n.fields.map fun (name, value) => name ++ "=" ++ value.plain)
  let warning := n.warning.filter (!·.isEmpty)
  let text := n.kind.tag ++ " #" ++ Number.natText n.handle
    ++ (if fields.isEmpty then "" else " [" ++ fields ++ "]")
    ++ warning.elim "" ("  ! " ++ ·)
  .of text (if !n.enabled then "dim strike" else if warning.isSome then "yellow" else "white")

end NqcBlocks.Viewer
