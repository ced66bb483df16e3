import NqcBlocks.Editor
import NqcBlocks.Workspace.Entry

/-!
# Loading a workspace

A workspace is a document that lists blocks, each with what is plugged into its inputs and what comes
next. Loading builds the blocks in document order: a block, then its inputs in order, each completely,
then the blocks after it. A block that is really there wins over its shadow. A load that fails keeps
the blocks it had built.
-/

namespace NqcBlocks.Workspace

/-- Building blocks with an editor; what was built before a failure stays. -/
abbrev Load (α : Type) := ExceptT LoadError (StateM Editor) α

def linked (connection : Json) : Except LoadError (Option Json) :=
  if !connection.isTruthy then .ok none
  else match connection with
    | .object members => match (Table.get? "block" members).bind Json.truthy? with
      | some entry => .ok (some entry)
      | none => .ok ((Table.get? "shadow" members).bind Json.nonNull?)
    | _ => .error (.badConnection connection)

theorem sizeOf_lt_of_get? {members : Table Json} {key : String} {j : Json}
    (h : members.get? key = some j) : sizeOf j < sizeOf members := by
  have hm := List.sizeOf_lt_of_mem (Table.mem_of_get? h)
  have : sizeOf (key, j) = 1 + sizeOf key + sizeOf j := by simp
  omega

theorem sizeOf_lt_of_linked {connection j : Json} (h : linked connection = .ok (some j)) :
    sizeOf j < sizeOf connection := by
  unfold linked at h
  split at h
  · simp at h
  · split at h
    · next members _ =>
      have hs : sizeOf (Json.object members) = 1 + sizeOf members := by simp
      split at h
      · next entry he =>
        obtain ⟨k, hk, ht⟩ := Option.bind_eq_some_iff.mp he
        have : k = j := by
          unfold Json.truthy? at ht
          split at ht <;> simp_all
        subst this
        have := sizeOf_lt_of_get? hk
        omega
      · injection h with h
        obtain ⟨k, hk, ht⟩ := Option.bind_eq_some_iff.mp h
        have : k = j := by
          cases k <;> simp_all [Json.nonNull?]
        subst this
        have := sizeOf_lt_of_get? hk
        omega
    · simp at h

def perform (id type : Json) (command : Command) : Load Unit := do
  let (e, outcome) := (← get).perform command
  set e
  match outcome with
  | .ok () => pure ()
  | .error cause => throw (.refused id type cause)

def createBlock (entry : BlockEntry) : Load Handle := do
  match (← get).create entry.palette.kind.tag entry.init with
  | .ok (h, e) => set e; pure h
  | .error cause => throw (.refused entry.id entry.type cause)

def connect (entry : Json) (command : Command) : Load Unit :=
  match entry with
  | .object members =>
    perform (member members "id") (member members "type") command
  | _ => pure ()

mutual
def buildBlock (entry : Json) : Load Handle :=
  match entry with
  | .object members => do
    let read ← readEntry (← get).graph.catalog members
    let h ← createBlock read
    match _hi : Table.get? "inputs" members with
    | some (.object inputs) => buildInputs read h inputs
    | some other => do discard (ExceptT.mk (pure (membersOf other)))
    | none => pure ()
    pure h
  | _ => throw (.missingType entry)
termination_by 2 * sizeOf entry
decreasing_by
  have := sizeOf_lt_of_get? _hi
  simp only [Json.object.sizeOf_spec] at *
  omega

def buildInputs (read : BlockEntry) (owner : Handle) (inputs : List (String × Json)) :
    Load Unit :=
  match inputs with
  | [] => pure ()
  | (input, connection) :: rest => do
    match _hl : linked connection with
    | .error e => throw e
    | .ok none => pure ()
    | .ok (some entry) =>
      let slot := read.palette.input input
      let node := ((← get).graph.get? owner).getD { handle := owner, kind := read.palette.kind }
      if node.valueSlots.contains slot then
        let child ← buildBlock entry
        connect entry (.connectValue owner slot child)
      else if node.statementSlots.contains slot then
        let child ← buildChain entry
        connect entry (.connectStatement owner slot child)
      else throw (.noInput read.id read.type input)
    buildInputs read owner rest
termination_by 2 * sizeOf inputs
decreasing_by
  · simp only [List.cons.sizeOf_spec, Prod.mk.sizeOf_spec]
    omega
  · have := sizeOf_lt_of_linked _hl
    simp only [List.cons.sizeOf_spec, Prod.mk.sizeOf_spec]
    omega
  · have := sizeOf_lt_of_linked _hl
    simp only [List.cons.sizeOf_spec, Prod.mk.sizeOf_spec]
    omega

def buildChain (entry : Json) : Load Handle := do
  let head ← buildBlock entry
  buildNext head entry
  pure head
termination_by 2 * sizeOf entry + 1

def buildNext (previous : Handle) (entry : Json) : Load Unit :=
  match entry with
  | .object members =>
    match _hn : Table.get? "next" members with
    | none => pure ()
    | some connection => match _hl : linked connection with
      | .error e => throw e
      | .ok none => pure ()
      | .ok (some following) => do
        let h ← buildBlock following
        connect following (.connectNext previous h)
        buildNext h following
  | _ => pure ()
termination_by 2 * sizeOf entry
decreasing_by
  all_goals
    have h₁ := sizeOf_lt_of_get? _hn
    have h₂ := sizeOf_lt_of_linked _hl
    simp only [Json.object.sizeOf_spec]
    omega
end

def topEntries (workspace : Json) : Except LoadError (List Json) :=
  match workspace with
  | .object members =>
    let blocks := (Table.get? "blocks" members).getD (.object [])
    let blocks := match blocks with
      | .object inner => (Table.get? "blocks" inner).getD (.list [])
      | j => j
    match blocks with
    | .list entries => .ok entries
    | _ => .error .noBlockList
  | _ => .error .notAnObject

def buildAll : List Json → Load Unit
  | [] => pure ()
  | entry :: rest => do
    discard (buildChain entry)
    buildAll rest

def load (workspace : Json) : Load Unit :=
  match topEntries workspace with
  | .error e => throw e
  | .ok entries => buildAll entries

def loadInto (e : Editor) (workspace : Json) : Except LoadError Unit × Editor :=
  (load workspace).run.run e

def toGraph (workspace : Json) : Except LoadError Graph :=
  match loadInto {} workspace with
  | (.ok (), e) => .ok e.graph
  | (.error err, _) => .error err

end NqcBlocks.Workspace
