import NqcBlocks.Graph.Edit
import NqcBlocks.Workspace.Error
import NqcBlocks.Workspace.Palette

/-!
# Block entries

A workspace lists its blocks as nested entries. This module reads what one entry says about its own
block: the type, the shape, the fields, the remark and whether the block is enabled. Several faults may
come together; the one reported is the first in that order.
-/

namespace NqcBlocks.Workspace

def member (members : Table Json) (key : String) : Json := (members.get? key).getD .null

def membersOf (j : Json) : Except LoadError (Table Json) :=
  if !j.isTruthy then .ok []
  else match j with
    | .object members => .ok members
    | _ => .error (.misuse .members)

def stateValue? (state : Json) (key : String) : Except LoadError (Option Json) :=
  match state with
  | .object members => .ok (Table.get? key members)
  | .text s =>
    if (s.splitOn key).length > 1 then .error (.misuse .lookup) else .ok none
  | .list items =>
    if items.any fun i => i.text? == some key then .error (.misuse .lookup) else .ok none
  | _ => .error (.misuse .lookup)

def branchCount (id value : Json) : Except LoadError Json :=
  match value with
  | .bool _ => .error (.badCount id value)
  | _ => match value.whole with
    | .error .infinite => .error (.misuse .magnitude)
    | .error _ => .error (.badCount id value)
    | .ok n => if n < 0 then .error (.badCount id value) else .ok (.int n)

def readMutation (members : Table Json) (implied : Table Json) : Except LoadError (Table Json) := do
  let state := ((member members "extraState").truthy?).getD (.object [])
  let count ← stateValue? state "elseIfCount"
  let withCount ← match count with
    | none => pure implied
    | some value => do
      pure (implied.insert "else_if_count" (← branchCount (member members "id") value))
  let hasElse ← stateValue? state "hasElse"
  match hasElse with
  | none => pure withCount
  | some value => pure (withCount.insert "has_else" (.bool value.isTruthy))

def fieldValue (spec : BlockSpec) (id : Json) (name : String) (value : Json) :
    Except LoadError Json :=
  match value, (spec.field? name).map FieldSpec.kind with
  | .text s, some FieldKind.number => match Numeral.readDouble? s with
    | none => .error (.badNumber id s)
    | some d => .ok (.number (Number.double d).wholeAsInt)
  | _, _ => .ok value

def readFields (spec : BlockSpec) (palette : PaletteEntry) (id : Json) :
    Table Json → List (String × Json) → Except LoadError (Table Json)
  | fields, [] => .ok fields
  | fields, (name, value) :: rest => do
    let name := palette.field name
    let value ← fieldValue spec id name value
    readFields spec palette id (fields.insert name value) rest

def readComment (members : Table Json) : Except LoadError (Option Json) := do
  let comment := match member members "comment" with
    | .object inner => member inner "text"
    | j => j
  match comment with
  | .null =>
    let icons ← membersOf (member members "icons")
    let icon ← membersOf (member icons "comment")
    pure (member icon "text").truthy?
  | j => pure j.truthy?

def readEnabled (members : Table Json) : Bool :=
  !(member members "disabledReasons").isTruthy && ((members.get? "enabled").all Json.isTruthy)

structure BlockEntry where
  type : Json
  id : Json
  palette : PaletteEntry
  init : Graph.BlockInit

def typeEntry (type : Json) : Except LoadError (Option PaletteEntry) :=
  match type with
  | .text s => .ok (some (Palette.entry s))
  | .list _ | .object _ => .error (.misuse .lookup)
  | _ => .ok none

def readEntry (catalog : Catalog) (members : Table Json) : Except LoadError BlockEntry := do
  let id := member members "id"
  match members.get? "type" with
  | none => throw (.missingType (.object members))
  | some type =>
    match ← typeEntry type with
    | none => throw (.unknownType type id)
    | some palette => match catalog.spec? palette.kind with
      | none => throw (.unknownType type id)
      | some spec =>
        let mutation ← readMutation members palette.mutation
        let stated ← membersOf (member members "fields")
        let fields ← readFields spec palette id [] stated
        let comment ← readComment members
        let enabled := readEnabled members
        pure { type, id, palette, init := { fields, mutation, comment, enabled, id } }

end NqcBlocks.Workspace
