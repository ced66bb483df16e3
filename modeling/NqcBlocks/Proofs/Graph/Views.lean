import NqcBlocks.Proofs.Block.Conformity

/-!
# Positions and cells

Two views that every statement about graphs is made in. A block is viewed by its **positions**: the
sockets and the place after it, each of which is empty or holds the handle of a block (`Node.at?`),
and each of which takes blocks of a certain sort (`Node.socket?`). There is one operation on positions,
to put something into one (`Node.put`), and every edit of a block's links is an instance of it.
-/

namespace NqcBlocks

open List Option

variable {n : Node} {g : Graph} {h : Handle} {spec : BlockSpec}

/-! ## Positions of a block -/

namespace Node

def isValue (n : Node) : Bool := (Builtin.spec? n.kind).any (·.isValue)

def isStatement (n : Node) : Bool := (Builtin.spec? n.kind).any (·.isStatement)

def output (n : Node) : Option Check := (Builtin.spec? n.kind).bind (·.outputCheck)

def at? (n : Node) (position : String) : Option Handle :=
  if position = nextPosition then n.next
  else match n.valueSlots.get? position with
    | some s => s.target
    | none => (n.statementSlots.get? position).join

def put (n : Node) (position : String) (target : Option Handle) : Node :=
  if position == nextPosition then { n with next := target }
  else if n.valueSlots.contains position then n.plugValue position target
  else n.plugStatement position target

inductive Socket where
  | value (check : Check)
  | chain
  deriving DecidableEq

def Socket.fits : Socket → Node → Prop
  | .value check, m => m.isValue = true ∧ check.accepts m.output = true
  | .chain, m => m.isStatement = true

def socket? (n : Node) (position : String) : Option Socket :=
  if position = nextPosition then if n.isStatement then some .chain else none
  else match n.valueSlots.get? position with
    | some s => some (.value s.check)
    | none => if n.statementSlots.contains position then some .chain else none

def Takes (n : Node) (position : String) (m : Node) : Prop :=
  ∃ s, n.socket? position = some s ∧ s.fits m

/-- **A position of a block holds a handle**: as the value in a socket, as the first statement in a
socket, or as the statement after the block. -/
inductive Holds (n : Node) : String → Handle → Prop
  | value {slot : String} {s : ValueSlot} {h : Handle} :
      (slot, s) ∈ n.valueSlots → s.target = some h → Holds n slot h
  | statement {slot : String} {h : Handle} : (slot, some h) ∈ n.statementSlots → Holds n slot h
  | next {h : Handle} : n.next = some h → Holds n nextPosition h

variable {k slot : String} {s : ValueSlot}

theorem holds_iff (hc : n.Conforms spec) : n.Holds k h ↔ n.at? k = some h := by
  have hpos := hc.nodup_positions
  rw [nodup_cons, mem_append, not_or, nodup_append] at hpos
  obtain ⟨⟨hnv, hns⟩, hv, hs, hvs⟩ := hpos
  constructor
  · rintro (⟨hmem, ht⟩ | hmem | ht)
    · have hk : k ∈ n.valueSlots.names := List.mem_map_of_mem hmem
      have hne : k ≠ nextPosition := fun e => hnv (e ▸ hk)
      unfold at?
      rw [if_neg hne, (Table.get?_eq_some_iff hv).mpr hmem]
      exact ht
    · have hk : k ∈ n.statementSlots.names := List.mem_map_of_mem hmem
      have hne : k ≠ nextPosition := fun e => hns (e ▸ hk)
      have hkv : n.valueSlots.get? k = none := Table.get?_eq_none_iff.mpr (fun hk' => hvs _ hk' _ hk rfl)
      unfold at?
      rw [if_neg hne, hkv, (Table.get?_eq_some_iff hs).mpr hmem]
      rfl
    · unfold at?
      rw [if_pos rfl]
      exact ht
  · intro h'
    unfold at? at h'
    split at h'
    · next hk =>
      subst hk
      exact .next h'
    · split at h'
      · next s hget => exact .value (Table.mem_of_get? hget) h'
      · cases hget : n.statementSlots.get? k with
        | none => rw [hget] at h'; cases h'
        | some t =>
          rw [hget] at h'
          exact .statement (h' ▸ Table.mem_of_get? hget)

/-! ## Putting something into a position -/

section Put

variable (n : Node) (k : String) (t : Option Handle)

theorem get?_valueSlots_plugValue (k' : String) : (n.plugValue k t).valueSlots.get? k'
    = (n.valueSlots.get? k').map fun s => if k' = k then { s with target := t } else s := by
  have h := Table.get?_mapValues
    (fun name (s : ValueSlot) => if name == k then { s with target := t } else s) k' n.valueSlots
  simp only [beq_iff_eq] at h
  rw [← h]
  simp [plugValue]

theorem get?_statementSlots_plugStatement (k' : String) : (n.plugStatement k t).statementSlots.get? k'
      = (n.statementSlots.get? k').map fun s => if k' = k then t else s := by
  have h := Table.get?_mapValues (fun name (s : Option Handle) => if name == k then t else s) k' n.statementSlots
  simp only [beq_iff_eq] at h
  rw [← h]
  simp [plugStatement]

theorem put_nextPosition : n.put nextPosition t = { n with next := t } := rfl

variable {k} in
theorem put_of_value (hk : k ≠ nextPosition) (hv : n.valueSlots.contains k = true) : n.put k t = n.plugValue k t := by
  unfold put
  rw [if_neg (by simpa using hk), if_pos hv]

variable {k} in
theorem put_of_statement (hk : k ≠ nextPosition) (hv : ¬ n.valueSlots.contains k = true) :
    n.put k t = n.plugStatement k t := by
  unfold put
  rw [if_neg (by simpa using hk), if_neg hv]

variable {k} in
theorem put_next_of_ne (hk : k ≠ nextPosition) : (n.put k t).next = n.next := by
  unfold put
  rw [if_neg (by simpa using hk)]
  split <;> rfl

theorem at?_nextPosition : n.at? nextPosition = n.next := if_pos rfl

variable {k} in
theorem at?_of_ne (hk : k ≠ nextPosition) : n.at? k = match n.valueSlots.get? k with
    | some s => s.target
    | none => (n.statementSlots.get? k).join := if_neg hk

@[simp] theorem put_parent : (n.put k t).parent = n.parent := by
  unfold put
  split
  · rfl
  · split <;> rfl

theorem at?_put {s : Socket} (hk : n.socket? k = some s) (k' : String) :
    (n.put k t).at? k' = if k' = k then t else n.at? k' := by
  by_cases hnext : k = nextPosition
  · subst hnext
    rw [put_nextPosition]
    by_cases hk' : k' = nextPosition
    · rw [if_pos hk', hk', at?_nextPosition]
    · rw [if_neg hk', at?_of_ne _ hk', at?_of_ne _ hk']
  by_cases hk'n : k' = nextPosition
  · -- the place after the block is not the socket
    rw [if_neg (fun e => hnext (e.symm.trans hk'n)), hk'n, at?_nextPosition, at?_nextPosition,
      put_next_of_ne n t hnext]
  rw [at?_of_ne _ hk'n, at?_of_ne _ hk'n]
  by_cases hv : n.valueSlots.contains k = true
  · rw [put_of_value n t hnext hv, get?_valueSlots_plugValue]
    by_cases hk' : k' = k
    · subst hk'
      obtain ⟨v, hget⟩ := isSome_iff_exists.mp hv
      rw [hget, if_pos rfl]
      exact congrArg ValueSlot.target (if_pos rfl)
    · simp only [if_neg hk']
      cases n.valueSlots.get? k' <;> rfl
  · rw [put_of_statement n t hnext hv]
    have hnone : n.valueSlots.get? k = none := by
      unfold Table.contains at hv
      rwa [Bool.not_eq_true, isSome_eq_false_iff, isNone_iff_eq_none] at hv
    show (match n.valueSlots.get? k' with
      | some s => s.target
      | none => ((n.plugStatement k t).statementSlots.get? k').join) = _
    rw [get?_statementSlots_plugStatement]
    by_cases hk' : k' = k
    · subst hk'
      have hs : n.statementSlots.contains k' = true := by
        unfold socket? at hk
        rw [if_neg hnext, hnone] at hk
        by_contra hc
        rw [Bool.not_eq_true] at hc
        rw [hc] at hk
        cases hk
      obtain ⟨v, hget⟩ := isSome_iff_exists.mp hs
      rw [hnone, hget, if_pos rfl]
      simp only [map_some, join_some, if_true]
    · simp only [if_neg hk', Option.map_id']

end Put

theorem Conforms.ne_nextPosition (hc : n.Conforms spec)
    (hs : n.valueSlots.get? slot = some s) : slot ≠ nextPosition := by
  have hpos := (nodup_cons.mp hc.nodup_positions).1
  rintro rfl
  exact hpos (mem_append_left _ (Table.mem_names_of_get? hs))

theorem Conforms.socket?_value (hc : n.Conforms spec)
    (hs : n.valueSlots.get? slot = some s) : n.socket? slot = some (.value s.check) := by
  unfold socket?
  rw [if_neg (hc.ne_nextPosition hs), hs]

theorem exists_valueSlot {check : Check} (hk : n.socket? k = some (.value check)) :
    k ≠ nextPosition ∧ ∃ s, n.valueSlots.get? k = some s := by
  unfold socket? at hk
  split at hk
  · split at hk <;> cases hk
  · next hne =>
    refine ⟨hne, ?_⟩
    cases hv : n.valueSlots.get? k with
    | some s => exact ⟨s, rfl⟩
    | none =>
      rw [hv] at hk
      dsimp only at hk
      split at hk <;> cases hk

end Node

/-! ## Cells of a graph -/

namespace Graph

theorem get?_succ (g : Graph) (i : Nat) :
    g.get? (i + 1) = g.cells[i]?.bind fun c => if c.live then some c.node else none := rfl

theorem lt_nextHandle_of_get? (hn : g.get? h = some n) : 0 < h ∧ h < g.nextHandle := by
  cases h with
  | zero => cases hn
  | succ i =>
    rw [get?_succ] at hn
    obtain ⟨c, hc, -⟩ := Option.bind_eq_some_iff.mp hn
    obtain ⟨hlt, -⟩ := Array.getElem?_eq_some_iff.mp hc
    exact ⟨Nat.succ_pos i, Nat.succ_lt_succ hlt⟩

theorem lastState?_of_get? (hn : g.get? h = some n) : g.lastState? h = some n := by
  unfold get? at hn
  unfold lastState?
  obtain ⟨c, hc, hl⟩ := Option.bind_eq_some_iff.mp hn
  rw [hc]
  split at hl
  · exact hl
  · cases hl

theorem contains_iff : g.contains h = true ↔ ∃ n, g.get? h = some n := by
  unfold contains
  rw [isSome_iff_exists]

theorem node_eq_ok_iff : g.node h = .ok n ↔ g.get? h = some n := by
  unfold node
  cases g.get? h with
  | none => simp
  | some m => simp

theorem get?_push (g : Graph) (n : Node) (h : Handle) :
    (g.push n).get? h = if h = g.nextHandle then some n else g.get? h := by
  cases h with
  | zero => rfl
  | succ i =>
    rw [get?_succ, get?_succ]
    unfold push nextHandle
    dsimp only
    rw [Array.getElem?_push]
    by_cases hi : i = g.cells.size
    · rw [if_pos hi, if_pos (congrArg Nat.succ hi)]
      rfl
    · rw [if_neg hi, if_neg (fun e => hi (Nat.succ.inj e))]

@[simp] theorem nextHandle_push (g : Graph) (n : Node) : (g.push n).nextHandle = g.nextHandle + 1 := by
  unfold nextHandle push
  rw [Array.size_push]

@[simp] theorem nextHandle_modify (g : Graph) (h : Handle) (f : Node → Node) :
    (g.modify h f).nextHandle = g.nextHandle := by
  unfold nextHandle modify
  split
  · rfl
  · rw [Array.size_modify]

@[simp] theorem nextHandle_retire (g : Graph) (h : Handle) : (g.retire h).nextHandle = g.nextHandle := by
  unfold nextHandle retire
  split
  · rfl
  · rw [Array.size_modify]

@[simp] theorem catalog_modify (g : Graph) (h : Handle) (f : Node → Node) :
    (g.modify h f).catalog = g.catalog := by
  unfold modify
  split <;> rfl

@[simp] theorem catalog_retire (g : Graph) (h : Handle) : (g.retire h).catalog = g.catalog := by
  unfold retire
  split <;> rfl

theorem nodes_eq (g : Graph) : g.nodes = (List.range g.cells.size).filterMap fun i => g.get? (i + 1) := by
  have hcells : ∀ (cells : List Cell) (f : Cell → Option Node),
      cells.filterMap f = (List.range cells.length).filterMap fun i => cells[i]?.bind f := by
    intro cells f
    induction cells with
    | nil => rfl
    | cons c cells ih =>
      rw [length_cons, range_succ_eq_map, filterMap_cons, filterMap_cons, filterMap_map, ih]
      rfl
  have hsize : g.cells.size = g.cells.toList.length := Array.length_toList.symm
  unfold nodes
  rw [hcells, ← hsize]
  refine filterMap_congr (fun i _ => ?_)
  rw [get?_succ, Array.getElem?_toList]

theorem mem_nodes_iff : n ∈ g.nodes ↔ ∃ h, g.get? h = some n := by
  rw [nodes_eq, mem_filterMap]
  constructor
  · rintro ⟨i, -, hi⟩
    exact ⟨i + 1, hi⟩
  · rintro ⟨h, hn⟩
    have hlt := lt_nextHandle_of_get? hn
    cases h with
    | zero => cases hn
    | succ i => exact ⟨i, List.mem_range.mpr (Nat.lt_of_succ_lt_succ hlt.2), hn⟩

theorem pairwise_nodes (hg : ∀ {h n}, g.get? h = some n → n.handle = h) :
    (g.nodes.map (·.handle)).Pairwise (· < ·) := by
  rw [nodes_eq, pairwise_map, pairwise_filterMap]
  refine List.pairwise_lt_range.imp (fun {i j} hij n hn m hm => ?_)
  rw [hg hn, hg hm]
  exact Nat.succ_lt_succ hij

end Graph

end NqcBlocks
