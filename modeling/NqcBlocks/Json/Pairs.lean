import NqcBlocks.Json.Basic

/-!
# Tables in documents

A table may be given as an object or as a list of pairs, each a key with its value; nothing at all is
the empty table. `Json.toTable` reads it. A pair is a list of two, a text of two characters or an
object of two members, whose keys then are the pair. A later pair with the same key replaces the value
of an earlier one.
-/

namespace NqcBlocks.Json

inductive TableFault where
  | noParts
  | noPair
  deriving DecidableEq, Repr

def toKey : Json → Except TableFault String
  | .list _ | .object _ => .error .noParts
  | j => .ok j.plain

def toPair : Json → Except TableFault (String × Json)
  | .list [key, value] => (toKey key).map (·, value)
  | .object [key, value] => .ok (key.1, .text value.1)
  | .text s => match s.toList with
    | [key, value] => .ok (key.toString, .text value.toString)
    | _ => .error .noPair
  | .list _ | .object _ => .error .noPair
  | _ => .error .noParts

def toTable (j : Json) : Except TableFault (Table Json) :=
  if !j.isTruthy then .ok []
  else match j with
    | .object members => .ok members
    | .list items =>
      (items.mapM toPair).map (·.foldl (fun (t : Table Json) (p : String × Json) => t.insert p.1 p.2) [])
    | .text _ => .error .noPair
    | _ => .error .noParts

end NqcBlocks.Json
