import NqcBlocks.Proofs.Graph.Pruning
import NqcBlocks.Proofs.Validation.Ruling

/-!
# Shape parameters, rewritten

A block keeps the table of shape parameters that it was created with, but once it has its sockets nothing
looks at them. `Graph.reshape` rewrites these tables in all blocks of a graph. Plugging blocks into each other
does the same to both graphs (`tracks_connectValue`, `tracks_connectStatement`, `tracks_connectNext`), and so does
creating a block, if the table that is given and the rewritten one stand for the same parameters
(`create_reshape`).
-/

namespace NqcBlocks

open BlockTree

variable {g : Graph} {σ : Table Json → Table Json} {n p c : Node} {h : Handle} {slot : String} {e : Edit}

def Node.reshape (σ : Table Json → Table Json) (n : Node) : Node := { n with mutation := σ n.mutation }

def Graph.reshape (σ : Table Json → Table Json) (g : Graph) : Graph := g.mapNodes (Node.reshape σ)

def Edit.reshape (σ : Table Json → Table Json) (e : Edit) : Edit :=
  { e with graph := e.graph.reshape σ
           notices := e.notices.map fun v => { v with graph := v.graph.reshape σ } }

namespace Graph

/-! ## Looking around -/

theorem get?_reshape (h : Handle) : (g.reshape σ).get? h = (g.get? h).map (Node.reshape σ) := get?_mapNodes h

theorem contains_reshape (h : Handle) : (g.reshape σ).contains h = g.contains h := by
  unfold contains
  rw [get?_reshape, Option.isSome_map]

theorem size_cells_reshape : (g.reshape σ).cells.size = g.cells.size := Array.size_map

theorem ancestryWithin_reshape (fuel : Nat) (n : Node) :
    (g.reshape σ).ancestryWithin fuel (n.reshape σ) = (g.ancestryWithin fuel n).map (Node.reshape σ) := by
  induction fuel generalizing n with
  | zero => rfl
  | succ fuel ih =>
    have hparent : (n.reshape σ).parent = n.parent := rfl
    have hget : (n.parent.bind fun q => (g.reshape σ).get? q.owner)
        = (n.parent.bind fun q => g.get? q.owner).map (Node.reshape σ) := by
      cases n.parent with
      | none => rfl
      | some q => exact get?_reshape q.owner
    rw [ancestryWithin, ancestryWithin, hparent, hget]
    cases n.parent.bind fun q => g.get? q.owner with
    | none => rfl
    | some m => exact congrArg (n.reshape σ :: ·) (ih m)

theorem isPartOf_reshape : (g.reshape σ).isPartOf (p.reshape σ) (c.reshape σ) = g.isPartOf p c := by
  unfold isPartOf ancestry reach
  rw [size_cells_reshape, ancestryWithin_reshape, List.any_map]
  rfl

theorem chainWithin_reshape (fuel : Nat) (target : Option Handle) :
    (g.reshape σ).chainWithin fuel target = (g.chainWithin fuel target).map (Node.reshape σ) := by
  induction fuel generalizing target with
  | zero => rfl
  | succ fuel ih =>
    have hfollow : (g.reshape σ).follow? target = (g.follow? target).map (Node.reshape σ) := by
      cases target with
      | none => rfl
      | some h => exact get?_reshape h
    rw [chainWithin, chainWithin, hfollow]
    cases g.follow? target with
    | none => rfl
    | some n => exact congrArg (n.reshape σ :: ·) (ih n.next)

theorem tail_reshape (child : Handle) : ((((g.reshape σ).chainAt (some child)).getLast?).map (·.handle)).getD child
      = (((g.chainAt (some child)).getLast?).map (·.handle)).getD child := by
  unfold chainAt reach
  rw [size_cells_reshape, chainWithin_reshape, List.getLast?_map, Option.map_map]
  rfl

theorem valueOccupant_reshape : (g.reshape σ).valueOccupant h slot = g.valueOccupant h slot := by
  unfold valueOccupant
  rw [get?_reshape]
  cases g.get? h <;> rfl

theorem occupant_reshape (position : String) : (g.reshape σ).occupant h position = g.occupant h position := by
  unfold occupant
  rw [get?_reshape]
  cases g.get? h <;> rfl

/-! ## Changes -/

theorem modify_reshape {f : Node → Node} (hf : ∀ n, f (n.reshape σ) = (f n).reshape σ) (h : Handle) :
    (g.reshape σ).modify h f = (g.modify h f).reshape σ := by
  unfold modify
  split
  · rfl
  · unfold reshape mapNodes
    refine congrArg (fun cells => ({ g with cells } : Graph)) (Array.ext_getElem? fun i => ?_)
    simp only [Array.getElem?_modify, Array.getElem?_map]
    split
    · cases g.cells[i]? with
      | none => rfl
      | some c => cases hl : c.live <;> simp [hl, hf]
    · rfl

theorem free_reshape (h : Handle) : (g.reshape σ).modify h (fun n => { n with parent := none })
    = (g.modify h fun n => { n with parent := none }).reshape σ :=
  modify_reshape (f := fun n => { n with parent := none }) (fun _ => rfl) h

theorem settle_reshape (child : Handle) (place : Place) :
    (g.reshape σ).settle child place = (g.settle child place).reshape σ :=
  modify_reshape (f := fun n => { n with parent := some place }) (fun _ => rfl) child

theorem unplug_reshape (n : Node) (position : String) :
    (n.reshape σ).unplug position = (n.unplug position).reshape σ := by
  unfold Node.unplug
  show (if position == nextPosition then _ else if n.valueSlots.contains position then _ else _) = _
  split_ifs <;> rfl

theorem detach_reshape (n : Node) : (g.reshape σ).detach (n.reshape σ) = (g.detach n).reshape σ := by
  have hparent : (n.reshape σ).parent = n.parent := rfl
  unfold detach
  rw [hparent]
  cases n.parent with
  | none => rfl
  | some q =>
    dsimp only
    rw [modify_reshape fun m => unplug_reshape m q.connection]
    exact free_reshape n.handle

/-! ## Edits -/

/-- **One outcome tracks another**: if the first is a result, the second is what a function makes of it. -/
def Tracks {ε α β : Type} (f : α → β) (x : Except ε α) (y : Except ε β) : Prop := ∀ a, x = .ok a → y = .ok (f a)

namespace Tracks

variable {ε α β α' β' : Type} {f : α → β} {f' : α' → β'} {x x' : Except ε α} {y y' : Except ε β}

theorem pure {a : α} {b : β} (h : b = f a) : Tracks (ε := ε) f (pure a) (pure b) := by
  rintro _ ⟨⟩
  exact congrArg Except.ok h

theorem refl (x : Except ε α) : Tracks id x x := fun _ => id

theorem bind {k : α → Except ε α'} {l : β → Except ε β'} (hx : Tracks f x y)
    (hk : ∀ a, x = .ok a → Tracks f' (k a) (l (f a))) : Tracks f' (x >>= k) (y >>= l) := by
  intro b hb
  obtain ⟨a, ha, hb⟩ := exists_of_bind_eq_ok hb
  rw [hx a ha]
  exact hk a ha b hb

theorem error (e : ε) : Tracks f (.error e) y := by
  rintro _ ⟨⟩

theorem guard {p : Prop} [Decidable p] {e : ε} (h : Tracks f x y) :
    Tracks f (if p then throw e else x) (if p then y' else y) := by
  split
  · exact .error e
  · exact h

end Tracks

theorem tracks_node (h : Handle) : Tracks (Node.reshape σ) (g.node h) ((g.reshape σ).node h) := by
  intro n hn
  rw [node_eq_ok_iff] at hn ⊢
  rw [get?_reshape, hn]
  rfl

theorem tracks_checkPlace (c : Node) : Tracks id (g.checkPlace c) ((g.reshape σ).checkPlace (c.reshape σ)) := by
  have hlost : (g.reshape σ).lostParent? (c.reshape σ) = g.lostParent? c := by
    unfold lostParent?
    simp only [contains_reshape]
    rfl
  unfold checkPlace
  rw [hlost]
  exact .refl _

variable {parent child : Handle} {init : BlockInit}

theorem tracks_connectValue : Tracks (Edit.reshape σ) (g.connectValue parent slot child)
    ((g.reshape σ).connectValue parent slot child) := by
  have hplug : ∀ (g : Graph) (x : Handle), (g.reshape σ).modify x (·.plugValue slot child)
      = (g.modify x (·.plugValue slot child)).reshape σ := fun g x =>
    modify_reshape (f := fun n => n.plugValue slot child) (fun _ => rfl) x
  unfold connectValue
  refine (tracks_node parent).bind fun p _ => (tracks_node child).bind fun c _ => (Tracks.refl _).bind fun s _ =>
    (Tracks.refl (g.spec c)).bind fun spec _ => ?_
  dsimp only [id]
  rw [isPartOf_reshape]
  refine .guard (.guard (.guard ((tracks_checkPlace c).bind fun _ _ => ?_)))
  rw [detach_reshape, valueOccupant_reshape]
  cases (g.detach c).valueOccupant parent slot with
  | none =>
    dsimp only
    rw [hplug, settle_reshape]
    exact .pure rfl
  | some o =>
    dsimp only
    rw [get?_reshape]
    cases (g.detach c).get? o with
    | none => exact .pure rfl
    | some freed =>
      dsimp only [Option.map_some]
      rw [free_reshape, hplug, settle_reshape]
      exact .pure rfl

theorem tracks_attachChain (p : Node) (position : ChainPosition) (occupied : Option Handle) :
    Tracks (Edit.reshape σ) (g.attachChain p position occupied child)
      ((g.reshape σ).attachChain (p.reshape σ) position occupied child) := by
  have hfill : ∀ (g : Graph) (x : Handle), (g.reshape σ).modify x (position.fill child)
      = (g.modify x (position.fill child)).reshape σ := fun g x =>
    modify_reshape (fun _ => by cases position <;> rfl) x
  have hnext : ∀ (g : Graph) (x o : Handle), (g.reshape σ).modify x (fun n => { n with next := some o })
      = (g.modify x fun n => { n with next := some o }).reshape σ := fun g x o =>
    modify_reshape (f := fun n => { n with next := some o }) (fun _ => rfl) x
  unfold attachChain
  refine (tracks_node child).bind fun c _ => (Tracks.refl (g.spec c)).bind fun spec _ => ?_
  dsimp only [id]
  rw [isPartOf_reshape]
  refine .guard (.guard ((tracks_checkPlace c).bind fun _ _ => ?_))
  have hhandle : (p.reshape σ).handle = p.handle := rfl
  have hparent : (c.reshape σ).parent = c.parent := rfl
  rw [detach_reshape, hhandle, hparent, occupant_reshape, hfill, settle_reshape]
  cases Option.filter (· != child)
      (if c.parent.isSome then (g.detach c).occupant p.handle position.name else occupied) with
  | none => exact .pure rfl
  | some o =>
    dsimp only
    rw [get?_reshape]
    cases (((g.detach c).modify p.handle (position.fill child)).settle child
        ⟨p.handle, position.name⟩).get? o with
    | none => exact .pure rfl
    | some m =>
      dsimp only [Option.map_some]
      rw [tail_reshape, hnext, settle_reshape]
      exact .pure rfl

theorem tracks_connectStatement : Tracks (Edit.reshape σ) (g.connectStatement parent slot child)
    ((g.reshape σ).connectStatement parent slot child) :=
  (tracks_node parent).bind fun p _ => (Tracks.refl (p.statementSlot slot)).bind fun occupied _ =>
    tracks_attachChain p (.slot slot) occupied

theorem tracks_connectNext {previous : Handle} : Tracks (Edit.reshape σ) (g.connectNext previous child)
    ((g.reshape σ).connectNext previous child) :=
  (tracks_node previous).bind fun p _ => (Tracks.refl (g.spec p)).bind fun _ _ =>
    .guard (tracks_attachChain p .next p.next)

theorem newNode_reshape (hσ : ∀ m key, (σ m).get? key = m.get? key) {spec : BlockSpec}
    (hn : newNode h spec init = .ok n) :
    newNode h spec { init with mutation := σ init.mutation } = .ok (n.reshape σ) := by
  have hslots : spec.slots (σ init.mutation) = spec.slots init.mutation := by
    unfold BlockSpec.slots
    rw [hσ, hσ]
  unfold newNode at hn ⊢
  dsimp only
  rw [hslots]
  split at hn
  · cases hn
  · split at hn
    · cases hn
    · cases hn
      rfl

theorem create_reshape (hσ : ∀ m key, (σ m).get? key = m.get? key) {tag : String}
    (he : g.create tag init = .ok (h, e)) :
    (g.reshape σ).create tag { init with mutation := σ init.mutation } = .ok (h, e.reshape σ) := by
  have hcatalog : (g.reshape σ).catalog = g.catalog := rfl
  have hnext : (g.reshape σ).nextHandle = g.nextHandle := congrArg (· + 1) size_cells_reshape
  have hpush : ∀ n : Node, (g.reshape σ).push (n.reshape σ) = (g.push n).reshape σ := by
    intro n
    unfold push reshape mapNodes
    dsimp only
    rw [Array.map_push]
    rfl
  unfold create at he ⊢
  rw [hcatalog, hnext]
  split at he
  · cases he
  · split at he
    · cases he
    · next n hn =>
      cases he
      rw [newNode_reshape hσ hn]
      dsimp only
      rw [hpush]
      rfl

end Graph

/-! ## What is left without the disabled blocks -/

/-- Trees with the shape parameters of all blocks rewritten. -/
abbrev reshaping (σ : Table Json → Table Json) : Revision := .ofNode (Node.reshape σ)

theorem Node.keepsLinks_reshape : KeepsLinks (Node.reshape σ) :=
  ⟨fun _ => rfl, fun _ => rfl, fun _ => rfl, fun _ => rfl⟩

theorem BlockTree.counts_reshape (t : BlockTree) : (t.revise (reshaping σ)).counts = t.counts := by
  rw [counts, t.node_revise, t.remarked_revise (fun _ => rfl) fun _ h => by cases h]
  rfl

mutual
theorem BlockTree.pruned_reshape : ∀ t : BlockTree, (t.revise (reshaping σ)).revise pruning = t.revise pruning
  | .mk n attached operands bodies => by
    rw [revise, revise, revise, prunedOperands_reshape operands, prunedBodies_reshape bodies]
    rfl
theorem prunedOperands_reshape : ∀ operands : Operands,
    reviseOperands pruning (reviseOperands (reshaping σ) operands) = reviseOperands pruning operands
  | [] => rfl
  | (slot, none) :: rest => by
    rw [reviseOperands, reviseOperands, reviseOperands, prunedOperands_reshape rest]
  | (slot, some t) :: rest => by
    have hcounts : pruning.keepsValue (t.revise (reshaping σ)) = pruning.keepsValue t := t.counts_reshape
    rw [reviseOperands_cons_some, reviseOperands, reviseOperands, prunedOperands_reshape rest, hcounts,
      t.pruned_reshape]
theorem prunedBodies_reshape : ∀ bodies : Bodies,
    reviseBodies pruning (reviseBodies (reshaping σ) bodies) = reviseBodies pruning bodies
  | [] => rfl
  | (slot, chain) :: rest => by
    rw [reviseBodies, reviseBodies, reviseBodies, prunedBodies_reshape rest, prunedChain_reshape chain]
theorem prunedChain_reshape : ∀ chain : List BlockTree,
    reviseChain pruning (reviseChain (reshaping σ) chain) = reviseChain pruning chain
  | [] => rfl
  | t :: rest => by
    have hkept : pruning.keepsStatement (t.revise (reshaping σ)) = pruning.keepsStatement t :=
      (congrArg Node.enabled t.node_revise : (t.revise (reshaping σ)).node.enabled = _)
    rw [reviseChain_cons, reviseChain, reviseChain, prunedChain_reshape rest, hkept, t.pruned_reshape]
end

namespace Graph

theorem trees_reshape (target : Option Handle) :
    (g.reshape σ).trees target = reviseChain (reshaping σ) (g.trees target) := by
  unfold trees depth
  rw [size_cells_reshape]
  exact treesWithin_revise Node.keepsLinks_reshape get?_reshape _ target

theorem prunesAlike_reshape (hg : g.Forest) (hg' : (g.reshape σ).Forest) : g.PrunesAlike (g.reshape σ) where
  forest := hg
  forest' := hg'
  tops := by
    unfold topBlocks reshape
    rw [nodes_mapNodes, List.filter_map, List.map_map]
    rfl
  chain {h n n'} hn hn' := by
    rw [hg.headTrees_eq hn, hg'.headTrees_eq hn', trees_reshape, prunedChain_reshape]
  body {h n n'} hn hn' k _ := by
    rw [get?_reshape, hn] at hn'
    cases hn'
    have hat : (n.reshape σ).at? k = n.at? k := rfl
    rw [hat, trees_reshape, prunedChain_reshape]

end Graph

end NqcBlocks
