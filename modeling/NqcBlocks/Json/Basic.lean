import NqcBlocks.Decimal.Number
import NqcBlocks.Table
import NqcBlocks.Text.Quoted

/-!
# Documents

The tree of a JSON document. Objects keep the order of their members, because the order of fields
and inputs decides the order in which blocks are built; integers and doubles are told apart.
-/

namespace NqcBlocks

inductive Json where
  | null
  | bool (value : Bool)
  | number (value : Number)
  | text (value : String)
  | list (items : List Json)
  | object (members : List (String × Json))
  deriving Repr, Inhabited

namespace Json

def int (n : Int) : Json := .number (.int n)

def isTruthy : Json → Bool
  | .null => false
  | .bool b => b
  | .number n => !n.isZero
  | .text s => !s.isEmpty
  | .list items => !items.isEmpty
  | .object members => !members.isEmpty

def truthy? (j : Json) : Option Json := if j.isTruthy then some j else none

def text? : Json → Option String
  | .text s => some s
  | _ => none

def nonNull? : Json → Option Json
  | .null => none
  | j => some j

mutual
def shown : Json → String
  | .null => "None"
  | .bool true => "True"
  | .bool false => "False"
  | .number n => n.text
  | .text s => Text.quoted s
  | .list items => "[" ++ shownItems items ++ "]"
  | .object members => "\x7b" ++ shownMembers members ++ "\x7d"
def shownItems : List Json → String
  | [] => ""
  | [j] => j.shown
  | j :: rest => j.shown ++ ", " ++ shownItems rest
def shownMembers : List (String × Json) → String
  | [] => ""
  | [(k, j)] => Text.quoted k ++ ": " ++ j.shown
  | (k, j) :: rest => Text.quoted k ++ ": " ++ j.shown ++ ", " ++ shownMembers rest
end

def plain : Json → String
  | .text s => s
  | j => j.shown

end Json

end NqcBlocks
