import NqcBlocks.Proofs.Block.Conformity

/-!
# What a workspace describes

A document describes a program without building it. Its **outline** are the entries that count, nested as
the document nests them: behind every input the entry that is really there, or else its shadow, and where
statements go, the entries that follow it. What comes after an entry in a socket for a value does not
count.
-/

namespace NqcBlocks

open List Option

namespace Workspace

/-! ## Entries -/

def membersIn : Json → Table Json
  | .object members => members
  | _ => []

def behind (connection : Json) : Option Json :=
  (((membersIn connection).get? "block").bind Json.truthy?).or
    (((membersIn connection).get? "shadow").bind Json.nonNull?)

def paletteOf (entry : Json) : PaletteEntry :=
  Palette.entry ((member (membersIn entry) "type").text?.getD "")

def specOf (entry : Json) : BlockSpec := (Builtin.spec? (paletteOf entry).kind).getD default

def mutationOf (entry : Json) : Table Json :=
  (readMutation (membersIn entry) (paletteOf entry).mutation).toOption.getD []

def socketsOf (entry : Json) : List SlotSpec × List String :=
  ((specOf entry).slots (mutationOf entry)).toOption.getD ([], [])

def statedFields (entry : Json) : Table Json :=
  Table.ofEntries ((membersIn (member (membersIn entry) "fields")).map fun e =>
    ((paletteOf entry).field e.1, e.2))

end Workspace

def FieldSpec.held (f : FieldSpec) (value : Json) : Json :=
  match f.kind, value with
  | .number, .text s =>
    ((Numeral.readDouble? s).map fun d => Json.number (Number.double d).wholeAsInt).getD value
  | .identifier, .text s => .text (Text.strip s)
  | _, _ => value

namespace Workspace

def fieldsOf (entry : Json) : Table Json :=
  (specOf entry).fields.map fun f =>
    (f.name, (((statedFields entry).get? f.name).map f.held).getD f.default)

/-! ## Outlines -/

/-- **An entry with the entries behind its inputs**, by the sockets that the inputs stand for. In a socket
for statements there may be several, one after the other. -/
inductive Outline where
  | mk (entry : Json) (inputs : List (String × List Outline))

theorem sizeOf_membersIn_le (j : Json) : sizeOf (membersIn j) ≤ sizeOf j := by
  cases j <;> simp [membersIn]

theorem sizeOf_member_le (members : Table Json) (key : String) : sizeOf (member members key) ≤ sizeOf members := by
  unfold member
  cases h : members.get? key with
  | none =>
    cases members <;> simp
    omega
  | some j => exact Nat.le_of_lt (sizeOf_lt_of_get? h)

theorem sizeOf_lt_of_behind {connection j : Json} (h : behind connection = some j) :
    sizeOf j < sizeOf connection := by
  have hmember : ∃ key, (membersIn connection).get? key = some j := by
    unfold behind at h
    rcases or_eq_some_iff.mp h with h | ⟨-, h⟩
    · obtain ⟨k, hk, htruthy⟩ := Option.bind_eq_some_iff.mp h
      unfold Json.truthy? at htruthy
      split at htruthy
      · exact ⟨_, htruthy ▸ hk⟩
      · cases htruthy
    · obtain ⟨k, hk, hnull⟩ := Option.bind_eq_some_iff.mp h
      cases k <;> cases hnull <;> exact ⟨_, hk⟩
  obtain ⟨key, hkey⟩ := hmember
  exact Nat.lt_of_lt_of_le (sizeOf_lt_of_get? hkey) (sizeOf_membersIn_le connection)

mutual
def outline (entry : Json) : Outline :=
  .mk entry (outlineInputs entry (membersIn (member (membersIn entry) "inputs")))
termination_by 2 * sizeOf entry + 1
decreasing_by
  have h₁ := sizeOf_membersIn_le (member (membersIn entry) "inputs")
  have h₂ := sizeOf_member_le (membersIn entry) "inputs"
  have h₃ := sizeOf_membersIn_le entry
  omega

def outlineInputs (owner : Json) (inputs : List (String × Json)) : List (String × List Outline) :=
  match inputs with
  | [] => []
  | (input, connection) :: rest =>
    let slot := (paletteOf owner).input input
    match _h : behind connection with
    | none => outlineInputs owner rest
    | some entry =>
      (slot, if (socketsOf owner).1.any (·.name == slot) then [outline entry] else outlineChain entry)
        :: outlineInputs owner rest
termination_by 2 * sizeOf inputs
decreasing_by
  all_goals
    simp only [List.cons.sizeOf_spec, Prod.mk.sizeOf_spec]
    try have := sizeOf_lt_of_behind _h
    omega

def outlineChain (entry : Json) : List Outline := outline entry :: outlineNext entry
termination_by 2 * sizeOf entry + 2

def outlineNext (entry : Json) : List Outline :=
  match _h : behind (member (membersIn entry) "next") with
  | none => []
  | some following => outlineChain following
termination_by 2 * sizeOf entry + 1
decreasing_by
  have h₁ := sizeOf_lt_of_behind _h
  have h₂ := sizeOf_member_le (membersIn entry) "next"
  have h₃ := sizeOf_membersIn_le entry
  omega
end

theorem induct_entry {P : Json → Prop} (step : ∀ entry, (∀ i ∈ membersIn (member (membersIn entry) "inputs"), ∀ below,
        behind i.2 = some below → P below) →
      (∀ following, behind (member (membersIn entry) "next") = some following → P following) → P entry)
    (entry : Json) : P entry :=
  step entry (fun i _hi below _hb => induct_entry step below) fun following _hb =>
    induct_entry step following
termination_by sizeOf entry
decreasing_by
  · have h₁ := sizeOf_lt_of_behind _hb
    have h₂ := sizeOf_lt_of_mem _hi
    have h₃ : sizeOf i = 1 + sizeOf i.1 + sizeOf i.2 := by cases i; simp
    have h₄ := sizeOf_membersIn_le (member (membersIn entry) "inputs")
    have h₅ := sizeOf_member_le (membersIn entry) "inputs"
    have h₆ := sizeOf_membersIn_le entry
    omega
  · have h₁ := sizeOf_lt_of_behind _hb
    have h₂ := sizeOf_member_le (membersIn entry) "next"
    have h₃ := sizeOf_membersIn_le entry
    omega

section Equations

variable {owner entry connection following : Json} {input : String} {rest : List (String × Json)}

theorem outlineInputs_of_none (h : behind connection = none) :
    outlineInputs owner ((input, connection) :: rest) = outlineInputs owner rest := by
  rw [outlineInputs]
  split
  · rfl
  · next hsome =>
    rw [h] at hsome
    cases hsome

theorem outlineInputs_of_some (h : behind connection = some entry) : outlineInputs owner ((input, connection) :: rest)
      = ((paletteOf owner).input input,
          if (socketsOf owner).1.any (·.name == (paletteOf owner).input input) then [outline entry]
          else outlineChain entry)
        :: outlineInputs owner rest := by
  rw [outlineInputs]
  split
  · next hnone =>
    rw [h] at hnone
    cases hnone
  · next hsome =>
    cases h.symm.trans hsome
    rfl

theorem outlineNext_of_none (h : behind (member (membersIn entry) "next") = none) : outlineNext entry = [] := by
  rw [outlineNext]
  split
  · rfl
  · next hsome =>
    rw [h] at hsome
    cases hsome

theorem outlineNext_of_some (h : behind (member (membersIn entry) "next") = some following) :
    outlineNext entry = outlineChain following := by
  rw [outlineNext]
  split
  · next hnone =>
    rw [h] at hnone
    cases hnone
  · next hsome =>
    cases h.symm.trans hsome
    rfl

end Equations

/-! ## Placements -/

mutual
def Outline.count : Outline → Nat
  | .mk _ inputs => countInputs inputs + 1
def countInputs : List (String × List Outline) → Nat
  | [] => 0
  | (_, chain) :: rest => countChain chain + countInputs rest
def countChain : List Outline → Nat
  | [] => 0
  | o :: rest => o.count + countChain rest
end

/-- **An entry with the handle of its block and the links of the block.** -/
structure Placement where
  entry : Json
  handle : Handle
  parent : Option Place
  inputs : Table Handle
  next : Option Handle

def inputHandles (h : Handle) : List (String × List Outline) → Table Handle
  | [] => []
  | (slot, chain) :: rest => (slot, h) :: inputHandles (h + countChain chain) rest

mutual
def Outline.place (h : Handle) (parent : Option Place) (next : Option Handle) :
    Outline → List Placement
  | .mk entry inputs =>
    { entry, handle := h, parent, inputs := inputHandles (h + 1) inputs, next }
      :: placeInputs h (h + 1) inputs
def placeInputs (owner h : Handle) : List (String × List Outline) → List Placement
  | [] => []
  | (slot, chain) :: rest =>
    placeChain h (some ⟨owner, slot⟩) chain ++ placeInputs owner (h + countChain chain) rest
def placeChain (h : Handle) (parent : Option Place) : List Outline → List Placement
  | [] => []
  | o :: rest =>
    o.place h parent (if rest.isEmpty then none else some (h + o.count))
      ++ placeChain (h + o.count) (some ⟨h, nextPosition⟩) rest
end

def placeAll (h : Handle) : List Json → List Placement
  | [] => []
  | entry :: rest =>
    placeChain h none (outlineChain entry) ++ placeAll (h + countChain (outlineChain entry)) rest

def placements (workspace : Json) : List Placement :=
  placeAll 1 ((topEntries workspace).toOption.getD [])

def Placement.node (p : Placement) : Node where
  handle := p.handle
  kind := (paletteOf p.entry).kind
  fields := fieldsOf p.entry
  valueSlots := (socketsOf p.entry).1.map fun s => (s.name, ⟨s.check, s.default, p.inputs.get? s.name⟩)
  statementSlots := (socketsOf p.entry).2.map fun s => (s, p.inputs.get? s)
  next := p.next
  parent := p.parent
  comment := (readComment (membersIn p.entry)).toOption.join
  enabled := readEnabled (membersIn p.entry)
  mutation := mutationOf p.entry
  id := member (membersIn p.entry) "id"

def Distinct (ps : List Placement) : Prop := ∀ p ∈ ps, p.inputs.names.Nodup

theorem distinct_cons {p : Placement} {ps : List Placement} :
    Distinct (p :: ps) ↔ p.inputs.names.Nodup ∧ Distinct ps := forall_mem_cons

theorem distinct_append {ps qs : List Placement} :
    Distinct (ps ++ qs) ↔ Distinct ps ∧ Distinct qs := forall_mem_append

/-! ## Handles and places -/

mutual
theorem Outline.map_handle_place : ∀ (o : Outline) (h : Handle) (parent : Option Place)
    (next : Option Handle), (o.place h parent next).map (·.handle) = range' h o.count
  | .mk entry inputs, h, parent, next => by
    rw [Outline.place, Outline.count, map_cons, map_handle_placeInputs, range'_succ]
theorem map_handle_placeInputs : ∀ (inputs : List (String × List Outline)) (owner h : Handle),
    (placeInputs owner h inputs).map (·.handle) = range' h (countInputs inputs)
  | [], _, _ => by rw [placeInputs, countInputs]; rfl
  | (slot, chain) :: rest, owner, h => by
    rw [placeInputs, countInputs, map_append, map_handle_placeChain, map_handle_placeInputs, range'_append_1]
theorem map_handle_placeChain : ∀ (chain : List Outline) (h : Handle) (parent : Option Place),
    (placeChain h parent chain).map (·.handle) = range' h (countChain chain)
  | [], _, _ => by rw [placeChain, countChain]; rfl
  | o :: rest, h, parent => by
    rw [placeChain, countChain, map_append, Outline.map_handle_place, map_handle_placeChain, range'_append_1]
end

mutual
theorem Outline.parent_ne_none : ∀ (o : Outline) {h : Handle} {parent : Option Place}
    {next : Option Handle}, parent ≠ none → ∀ p ∈ o.place h parent next, p.parent ≠ none
  | .mk entry inputs, h, parent, next, hparent => by
    rw [Outline.place]
    intro p hp
    rcases mem_cons.mp hp with rfl | hp
    · exact hparent
    · exact parent_ne_none_placeInputs inputs p hp
theorem parent_ne_none_placeInputs : ∀ (inputs : List (String × List Outline)) {owner h : Handle},
    ∀ p ∈ placeInputs owner h inputs, p.parent ≠ none
  | [], _, _ => by
    rw [placeInputs]
    exact fun p hp => absurd hp not_mem_nil
  | (slot, chain) :: rest, owner, h => by
    rw [placeInputs]
    intro p hp
    rcases mem_append.mp hp with hp | hp
    · exact parent_ne_none_placeChain chain (some_ne_none _) p hp
    · exact parent_ne_none_placeInputs rest p hp
theorem parent_ne_none_placeChain : ∀ (chain : List Outline) {h : Handle} {parent : Option Place},
    parent ≠ none → ∀ p ∈ placeChain h parent chain, p.parent ≠ none
  | [], _, _, _ => by
    rw [placeChain]
    exact fun p hp => absurd hp not_mem_nil
  | o :: rest, h, parent, hparent => by
    rw [placeChain]
    intro p hp
    rcases mem_append.mp hp with hp | hp
    · exact o.parent_ne_none hparent p hp
    · exact parent_ne_none_placeChain rest (some_ne_none _) p hp
end

theorem filter_placeChain (h : Handle) (entry : Json) :
    ∃ p, (placeChain h none (outlineChain entry)).filter (·.parent.isNone) = [p]
      ∧ p.entry = entry ∧ p.handle = h := by
  have hnone : ∀ {ps : List Placement}, (∀ p ∈ ps, p.parent ≠ none) → ps.filter (·.parent.isNone) = [] := by
    intro ps hps
    rw [filter_eq_nil_iff]
    intro p hp
    rw [isNone_iff_eq_none]
    exact hps p hp
  rw [outlineChain, placeChain, outline, Outline.place, filter_append, filter_cons_of_pos rfl,
    hnone (parent_ne_none_placeInputs _),
    hnone (parent_ne_none_placeChain _ (some_ne_none _))]
  exact ⟨_, rfl, rfl, rfl⟩

theorem map_entry_filter_placeAll (entries : List Json) (h : Handle) :
    ((placeAll h entries).filter (·.parent.isNone)).map (·.entry) = entries := by
  induction entries generalizing h with
  | nil => rfl
  | cons entry rest ih =>
    obtain ⟨p, hp, rfl, -⟩ := filter_placeChain h entry
    rw [placeAll, filter_append, hp, map_append, ih]
    rfl

theorem length_placeChain (chain : List Outline) (h : Handle) (parent : Option Place) :
    (placeChain h parent chain).length = countChain chain := by
  have := congrArg length (map_handle_placeChain chain h parent)
  rwa [length_map, length_range'] at this

theorem map_handle_placeAll (entries : List Json) (h : Handle) :
    (placeAll h entries).map (·.handle) = range' h (placeAll h entries).length := by
  induction entries generalizing h with
  | nil => rfl
  | cons entry rest ih =>
    rw [placeAll, map_append, map_handle_placeChain, ih, range'_append_1, length_append, length_placeChain]

end Workspace

end NqcBlocks
