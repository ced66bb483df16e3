import NqcBlocks.Graph.Tree
import NqcBlocks.Viewer.Markup

/-!
# Block views

The blocks of a workspace as a tree to look at. The blocks of a chain stand beside each other; below a
block stand its sockets, and below a socket what is plugged into it. A socket that is left empty shows
the value it stands for.
-/

namespace NqcBlocks.Viewer

/-- **An item of a tree**: its label, the block it shows if it shows one, and the items below it. -/
inductive Item where
  | mk (label : Label) (block : Option Handle) (children : List Item)
  deriving Inhabited

namespace Item

def label : Item → Label
  | .mk label .. => label

def block : Item → Option Handle
  | .mk _ block _ => block

def children : Item → List Item
  | .mk _ _ children => children

end Item

def slotItem (slot : String) (children : List Item) : Item :=
  .mk (Label.of (slot ++ ":") "cyan").firstLine none children

def emptyItem (n : Node) (slot : String) : Item :=
  let default := ((n.valueSlots.get? slot).map ValueSlot.default).getD ""
  .mk (Label.of (slot ++ ": " ++ default) "grey50").firstLine none []

mutual
def itemOf : BlockTree → Item
  | .mk n _ operands bodies =>
    .mk (blockLabel n).firstLine (some n.handle) (operandItems n operands ++ bodyItems bodies)
def operandItems (n : Node) : Operands → List Item
  | [] => []
  | (slot, none) :: rest => emptyItem n slot :: operandItems n rest
  | (slot, some t) :: rest => slotItem slot [itemOf t] :: operandItems n rest
def bodyItems : Bodies → List Item
  | [] => []
  | (slot, chain) :: rest => slotItem slot (chainItems chain) :: bodyItems rest
def chainItems : List BlockTree → List Item
  | [] => []
  | t :: rest => itemOf t :: chainItems rest
end

def graphItems (g : Graph) : List Item := g.topBlocks.flatMap fun n => chainItems (g.chainTrees n)

mutual
def itemBlocks : Item → List Handle
  | .mk _ block children => block.toList ++ itemsBlocks children
def itemsBlocks : List Item → List Handle
  | [] => []
  | item :: rest => itemBlocks item ++ itemsBlocks rest
end

mutual
def relabelItem (h : Handle) (label : Label) : Item → Item
  | .mk old block children =>
    .mk (if block == some h then label else old) block (relabelItems h label children)
def relabelItems (h : Handle) (label : Label) : List Item → List Item
  | [] => []
  | item :: rest => relabelItem h label item :: relabelItems h label rest
end

def itemAt? : List Int → Item → Option Item
  | [], item => some item
  | i :: rest, .mk _ _ children => match children[position children.length i]? with
    | none => none
    | some item => itemAt? rest item

/-- **A view of the blocks of a workspace**, and the block its cursor is on. -/
structure BlockView where
  root : Item := .mk (nameLabel "Workspace") none []
  cursor : Option Handle := none
  deriving Inhabited

namespace BlockView

def ofGraph (g : Graph) (title : String) : BlockView :=
  { root := .mk (nameLabel title) none (graphItems g) }

def blocks (v : BlockView) : List Handle := itemBlocks v.root

def refresh (v : BlockView) (g : Graph) (h : Handle) : BlockView :=
  match g.get? h with
  | none => v
  | some n => { v with root := relabelItem h (blockLabel n).firstLine v.root }

def focus (v : BlockView) (h : Option Handle) : BlockView :=
  match h with
  | none => v
  | some h => if v.blocks.contains h then { v with cursor := some h } else v

end BlockView

end NqcBlocks.Viewer
