import NqcBlocks.Json.Basic

/-!
# Names

What a variable or a task is called. A person gives texts as names, and every built-in kind of block
insists on one. A kind from elsewhere may come with a default that is something else: then the number
or the truth value is the name as it is, and it is written the way it is shown. A list or an object
can be no name.
-/

namespace NqcBlocks

/-- **A name**: a text, or a number, a truth value or nothing at all. -/
inductive Name where
  | text (s : String)
  | value (v : Json)
  deriving Repr, Inhabited

namespace Name

instance : Coe String Name := ⟨.text⟩

def ofJson? : Json → Option Name
  | .text s => some (.text s)
  | .list _ | .object _ => none
  | v => some (.value v)

def toJson : Name → Json
  | .text s => .text s
  | .value v => v

def plain (n : Name) : String := n.toJson.plain

def isEmpty (n : Name) : Bool := !n.toJson.isTruthy

def number? : Json → Option Number
  | .bool b => some (.int (if b then 1 else 0))
  | .number n => some n
  | _ => none

def sameNumber (a b : Number) : Bool := a == b || (!a.lt b && !b.lt a && a.isOrdered && b.isOrdered)

def same : Name → Name → Bool
  | .text a, .text b => a == b
  | .value u, .value v => match number? u, number? v with
    | some a, some b => sameNumber a b
    | none, none => true
    | _, _ => false
  | _, _ => false

def isIn (n : Name) (names : List Name) : Bool := names.any n.same

def distinct (names : List Name) : List Name :=
  names.foldl (fun kept n => if n.isIn kept then kept else kept ++ [n]) []

def inOrder? (names : List Name) : Option (List Name) :=
  match names.mapM fun n => n.toJson.text? with
  | some texts => some ((texts.mergeSort fun a b => !(b < a)).map .text)
  | none => (names.mapM fun n => (number? n.toJson).map (·, n)).map fun numbered =>
      (numbered.mergeSort fun a b => !(b.1.lt a.1)).map (·.2)

@[simp]
theorem same_text (a b : String) : same (.text a) (.text b) = (a == b) := rfl

end Name

end NqcBlocks
