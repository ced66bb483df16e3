import NqcBlocks.Proofs.Graph.Roots
import NqcBlocks.Proofs.Workspace.Loading

/-!
# What loading a workspace builds

Two inputs of an entry may stand for the same socket, because the editor has names of its own for some of
them. The loader plugs in what is behind the first one and then what is behind the second. In a socket for
statements the first ones then follow the second ones. In a socket for values there is room for one: the
second value takes the place of the first, and the first stands on its own from then on.
-/

namespace NqcBlocks

open List Json Editor

variable {h : Handle} {p : Placement} {ps : List Placement} {g : Graph} {n : Node} {workspace : Json}

namespace Workspace

open Graph

/-! ## Inputs for the same socket -/

def valueSockets (entry : Json) : List String := (socketsOf entry).1.map (·.name)

def overridden (sockets : List String) : Table Handle → List Handle
  | [] => []
  | (slot, h) :: rest =>
    if slot ∈ sockets ∧ slot ∈ Table.names rest then h :: overridden sockets rest
    else overridden sockets rest

def Placement.displaced (p : Placement) : List Handle := overridden (valueSockets p.entry) p.inputs

def displaced (ps : List Placement) : List Handle := ps.flatMap Placement.displaced

section Overridden

variable {sockets : List String} {slot : String} {x : Handle} {inputs rest : Table Handle}

theorem mem_overridden_cons : x ∈ overridden sockets ((slot, h) :: rest)
    ↔ (slot ∈ sockets ∧ slot ∈ rest.names ∧ x = h) ∨ x ∈ overridden sockets rest := by
  rw [overridden]
  split
  · next hslot => simp only [mem_cons, hslot.1, hslot.2, true_and]
  · next hslot => exact (or_iff_right fun hx => hslot ⟨hx.1, hx.2.1⟩).symm

theorem mem_of_mem_overridden (hx : x ∈ overridden sockets inputs) : ∃ slot, (slot, x) ∈ inputs := by
  induction inputs with
  | nil => cases hx
  | cons e rest ih =>
    rcases mem_overridden_cons.mp hx with ⟨-, -, rfl⟩ | hx
    · exact ⟨_, mem_cons_self⟩
    · exact (ih hx).imp fun _ => mem_cons_of_mem _

theorem overridden_eq_nil_iff : overridden sockets inputs = [] ↔ (inputs.names.filter (· ∈ sockets)).Nodup := by
  induction inputs with
  | nil => exact iff_of_true rfl nodup_nil
  | cons e rest ih =>
    obtain ⟨slot, h⟩ := e
    rw [overridden, Table.names_cons]
    by_cases hslot : slot ∈ sockets
    · rw [filter_cons_of_pos (by simpa using hslot), nodup_cons, ← ih]
      by_cases hrest : slot ∈ Table.names rest <;> simp [hslot, hrest]
    · rw [filter_cons_of_neg (by simpa using hslot), if_neg (fun h => hslot h.1), ih]

theorem displaced_eq_nil_iff : displaced ps = []
    ↔ ∀ p ∈ ps, (p.inputs.names.filter (· ∈ valueSockets p.entry)).Nodup := by
  unfold displaced
  rw [flatMap_eq_nil_iff]
  exact forall₂_congr fun p _ => overridden_eq_nil_iff

theorem mem_displaced_append {qs : List Placement} :
    x ∈ displaced (ps ++ qs) ↔ x ∈ displaced ps ∨ x ∈ displaced qs := by
  unfold displaced
  rw [flatMap_append, mem_append]

def FreedBy (sockets : List String) (occupant : String → Option Handle) (inputs : Table Handle)
    (x : Handle) : Prop :=
  x ∈ overridden sockets inputs ∨ ∃ s ∈ inputs.names, s ∈ sockets ∧ occupant s = some x

theorem freedBy_cons {before after : String → Option Handle}
    (hafter : ∀ s ∈ sockets, after s = if s = slot then some h else before s) :
    FreedBy sockets before ((slot, h) :: rest) x
      ↔ (slot ∈ sockets ∧ before slot = some x) ∨ FreedBy sockets after rest x := by
  constructor
  · rintro (hx | ⟨s, hs, hsocket, hx⟩)
    · rcases mem_overridden_cons.mp hx with ⟨hslot, hmem, rfl⟩ | hx
      · exact .inr (.inr ⟨slot, hmem, hslot, by rw [hafter _ hslot, if_pos rfl]⟩)
      · exact .inr (.inl hx)
    · by_cases e : s = slot
      · exact .inl ⟨e ▸ hsocket, e ▸ hx⟩
      · have hmem := (mem_cons.mp hs).resolve_left e
        exact .inr (.inr ⟨s, hmem, hsocket, by rw [hafter s hsocket, if_neg e]; exact hx⟩)
  · rintro (⟨hslot, hx⟩ | hx | ⟨s, hs, hsocket, hx⟩)
    · exact .inr ⟨slot, mem_cons_self, hslot, hx⟩
    · exact .inl (mem_overridden_cons.mpr (.inr hx))
    · rw [hafter s hsocket] at hx
      split at hx
      · next heq =>
        cases hx
        exact .inl (mem_overridden_cons.mpr (.inl ⟨heq ▸ hsocket, heq ▸ hs, rfl⟩))
      · exact .inr ⟨s, mem_cons_of_mem _ hs, hsocket, hx⟩

end Overridden

/-! ## Placements and what is plugged into them -/

def Placement.at? (p : Placement) (k : String) : Option Handle :=
  if k = nextPosition then p.next else p.inputs.get? k

def Placement.links (p : Placement) : Table Handle :=
  p.inputs ++ p.next.toList.map fun h => (nextPosition, h)

theorem Placement.mem_links_of_at? {k : String} (hk : p.at? k = some h) : (k, h) ∈ p.links := by
  unfold at? at hk
  unfold links
  split at hk
  · next he => simp [he, hk]
  · exact mem_append_left _ (Table.mem_of_get? hk)

def Linked (ps : List Placement) : Prop :=
  ∀ p ∈ ps, ∀ l ∈ p.links, p.handle < l.2 ∧ ∃ q ∈ ps, q.handle = l.2 ∧ q.parent = some ⟨p.handle, l.1⟩

theorem Linked.append {qs : List Placement} (hp : Linked ps) (hq : Linked qs) : Linked (ps ++ qs) := by
  intro p hmem l hl
  rcases mem_append.mp hmem with h | h
  · obtain ⟨hlt, q, hq, hhandle⟩ := hp p h l hl
    exact ⟨hlt, q, mem_append_left _ hq, hhandle⟩
  · obtain ⟨hlt, q, hq, hhandle⟩ := hq p h l hl
    exact ⟨hlt, q, mem_append_right _ hq, hhandle⟩

theorem count_outline_pos (entry : Json) : 0 < (outline entry).count := by
  rw [outline, Outline.count]
  exact Nat.succ_pos _

theorem exists_place (h : Handle) (entry : Json) : ∃ (c : Placement) (rs : List Placement),
    c.handle = h ∧ (∀ p ∈ rs, h < p.handle)
      ∧ ∀ parent next, (outline entry).place h parent next = { c with parent, next } :: rs := by
  rw [outline]
  refine ⟨⟨entry, h, none, _, none⟩, _, rfl, fun p hp => ?_, fun _ _ => by rw [Outline.place]⟩
  have hmem := mem_map_of_mem (f := (·.handle)) hp
  rw [map_handle_placeInputs] at hmem
  exact (List.mem_range'_1.mp hmem).1

theorem exists_head_placeChain (h : Handle) (parent : Option Place) (entry : Json) (rest : List Outline) :
    ∃ q ∈ placeChain h parent (outline entry :: rest), q.handle = h ∧ q.parent = parent := by
  obtain ⟨c, rs, rfl, -, hplace⟩ := exists_place h entry
  rw [placeChain, hplace]
  exact ⟨_, mem_append_left _ mem_cons_self, rfl, rfl⟩

theorem exists_chain (owner : Json) (slot : String) (entry : Json) : ∃ rest,
    (if (socketsOf owner).1.any (·.name == slot) then [outline entry] else outlineChain entry)
      = outline entry :: rest := by
  split
  · exact ⟨[], rfl⟩
  · exact ⟨outlineNext entry, by rw [outlineChain]⟩

theorem mem_inputHandles (owner : Json) (inputs : List (String × Json)) {o : Handle}
    {e : String × Handle} (he : e ∈ inputHandles h (outlineInputs owner inputs)) :
    h ≤ e.2 ∧ ∃ q ∈ placeInputs o h (outlineInputs owner inputs), q.handle = e.2 ∧ q.parent = some ⟨o, e.1⟩ := by
  induction inputs generalizing h with
  | nil =>
    rw [outlineInputs] at he
    cases he
  | cons input rest ih =>
    obtain ⟨name, connection⟩ := input
    cases hb : behind connection with
    | none =>
      rw [outlineInputs_of_none hb] at he ⊢
      exact ih he
    | some entry =>
      rw [outlineInputs_of_some hb] at he ⊢
      obtain ⟨following, hchain⟩ := exists_chain owner ((paletteOf owner).input name) entry
      rw [hchain] at he ⊢
      rw [inputHandles] at he
      rw [placeInputs]
      rcases mem_cons.mp he with rfl | he
      · obtain ⟨q, hq, hhandle⟩ := exists_head_placeChain h (some ⟨o, _⟩) entry following
        exact ⟨Nat.le_refl _, q, mem_append_left _ hq, hhandle⟩
      · obtain ⟨hle, q, hq, hhandle⟩ := ih he
        exact ⟨Nat.le_trans (Nat.le_add_right _ _) hle, q, mem_append_right _ hq, hhandle⟩

theorem linked_placeInputs (owner : Json) (inputs : List (String × Json)) (o h : Handle)
    (hbelow : ∀ i ∈ inputs, ∀ below, behind i.2 = some below →
      (∀ h parent, Linked ((outline below).place h parent none))
        ∧ ∀ h parent, Linked (placeChain h parent (outlineChain below))) :
    Linked (placeInputs o h (outlineInputs owner inputs)) := by
  induction inputs generalizing h with
  | nil =>
    rw [outlineInputs, placeInputs]
    exact forall_mem_nil _
  | cons i rest ih =>
    obtain ⟨hfirst, hrest⟩ := forall_mem_cons.mp hbelow
    obtain ⟨name, connection⟩ := i
    cases hb : behind connection with
    | none =>
      rw [outlineInputs_of_none hb]
      exact ih h hrest
    | some entry =>
      rw [outlineInputs_of_some hb, placeInputs]
      refine .append ?_ (ih _ hrest)
      split
      · rw [placeChain, placeChain, append_nil]
        exact (hfirst entry hb).1 h _
      · exact (hfirst entry hb).2 h _

theorem linked_place (entry : Json) : (∀ h parent, Linked ((outline entry).place h parent none))
    ∧ ∀ h parent, Linked (placeChain h parent (outlineChain entry)) := by
  induction entry using induct_entry with
  | step entry hbelow hfollowing =>
    have hblock : ∀ h parent, Linked ((outline entry).place h parent none) := by
      intro h parent
      have hinputs := linked_placeInputs entry _ h (h + 1) hbelow
      rw [outline, Outline.place]
      intro p hp l hl
      rcases mem_cons.mp hp with rfl | hp
      · rw [Placement.links, Option.toList_none, map_nil, append_nil] at hl
        obtain ⟨hle, q, hq, hhandle⟩ := mem_inputHandles (o := h) entry _ hl
        exact ⟨hle, q, mem_cons_of_mem _ hq, hhandle⟩
      · obtain ⟨hlt, q, hq, hhandle⟩ := hinputs p hp l hl
        exact ⟨hlt, q, mem_cons_of_mem _ hq, hhandle⟩
    refine ⟨hblock, fun h parent => ?_⟩
    rw [outlineChain, placeChain]
    cases hb : behind (member (membersIn entry) "next") with
    | none =>
      rw [outlineNext_of_none hb, placeChain, append_nil]
      exact hblock h parent
    | some following =>
      rw [outlineNext_of_some hb]
      have hrest := (hfollowing following hb).2 (h + (outline entry).count) (some ⟨h, nextPosition⟩)
      rw [outlineChain] at hrest ⊢
      obtain ⟨c, rs, rfl, -, hplace⟩ := exists_place h entry
      have hhead := (hblock c.handle parent).append hrest
      rw [hplace] at hhead ⊢
      intro p hp l hl
      -- only the first block has got a link more
      rcases mem_cons.mp hp with rfl | hp
      · rcases mem_append.mp hl with hl | hl
        · obtain ⟨hlt, q, hq, hhandle⟩ := hhead _ mem_cons_self l (mem_append_left _ hl)
          rcases mem_cons.mp hq with rfl | hq
          · exact absurd hhandle.1 (Nat.ne_of_lt hlt)
          · exact ⟨hlt, q, mem_cons_of_mem _ hq, hhandle⟩
        · obtain ⟨x, hx, rfl⟩ := mem_map.mp hl
          cases Option.mem_toList.mp hx
          obtain ⟨q, hq, hhandle⟩ := exists_head_placeChain (c.handle + (outline entry).count)
            (some ⟨c.handle, nextPosition⟩) following (outlineNext following)
          exact ⟨Nat.lt_add_of_pos_right (count_outline_pos entry), q,
            mem_cons_of_mem _ (mem_append_right _ hq), hhandle⟩
      · obtain ⟨hlt, q, hq, hhandle⟩ := hhead p (mem_cons_of_mem _ hp) l hl
        rcases mem_cons.mp hq with rfl | hq
        · exact ⟨hlt, _, mem_cons_self, hhandle⟩
        · exact ⟨hlt, q, mem_cons_of_mem _ hq, hhandle⟩

theorem linked_placeAll (entries : List Json) (h : Handle) : Linked (placeAll h entries) := by
  induction entries generalizing h with
  | nil => exact nofun
  | cons entry rest ih =>
    rw [placeAll]
    exact ((linked_place entry).2 h none).append (ih _)

variable {x : Handle} {e e' : Editor} {entry : Json} {child : Handle} {read : BlockEntry}
  {parent : Option Place} {next : Option Handle}

theorem Linked.of_mem_displaced (hps : Linked ps) (hx : x ∈ displaced ps) :
    ∃ p ∈ ps, p.handle < x ∧ ∃ q ∈ ps, q.handle = x ∧ q.parent ≠ none := by
  obtain ⟨p, hp, hx⟩ := mem_flatMap.mp hx
  obtain ⟨slot, hx⟩ := mem_of_mem_overridden hx
  obtain ⟨hlt, q, hq, hhandle, hparent⟩ := hps p hp _ (mem_append_left _ hx)
  exact ⟨p, hp, hlt, q, hq, hhandle, by rw [hparent]; exact Option.some_ne_none _⟩

/-! ## Growing programs -/

structure Idle (e : Editor) : Prop where
  forest : e.graph.Forest
  unwatched : e.validators = 0

theorem Idle.commit (he : Idle e) {edit : Edit} (hf : edit.graph.Forest) : Idle (e.commit edit) := by
  obtain ⟨hgraph, hvalidators⟩ := commit_of_unwatched he.unwatched edit
  exact ⟨hgraph ▸ hf, hvalidators⟩

theorem Idle.exists_puts_connectNext (he : Idle e) {previous : Handle}
    (hentry : entry = .object (membersIn entry))
    (hg : Gives (connect entry (.connectNext previous child)) e () e') :
    ∃ edit tail, e.graph.Puts child ⟨previous, nextPosition⟩ (some ⟨tail, nextPosition⟩)
      (fun _ _ => edit.graph) edit ∧ e' = e.commit edit := by
  obtain ⟨edit, hedit, rfl⟩ := exists_of_connect (f := (·.connectNext previous child)) hentry rfl hg
  obtain ⟨tail, hputs⟩ := he.forest.puts_connectNext hedit
  exact ⟨edit, tail, hputs, rfl⟩

/-- **A program has grown by some placements**, and `freed` are the blocks that stand on their own now and
did not before. -/
structure Grows (e e' : Editor) (ps : List Placement) (freed : Handle → Prop) : Prop extends Idle e' where
  next : e'.graph.nextHandle = e.graph.nextHandle + ps.length
  le : ∀ p ∈ ps, e.graph.nextHandle ≤ p.handle
  old : ∀ h < e.graph.nextHandle, (e'.graph.get? h).map Node.bare = (e.graph.get? h).map Node.bare
  new : ∀ p ∈ ps, (e'.graph.get? p.handle).map Node.bare = some p.node.bare
  isRoot_iff : ∀ x, e'.graph.IsRoot x ↔ e.graph.IsRoot x ∨ freed x

def Keeps (e e' : Editor) (h : Handle) : Prop :=
  ∀ k ≠ nextPosition, e'.graph.at? ⟨h, k⟩ = e.graph.at? ⟨h, k⟩

/-- **Every place holds what it should**: those of the older blocks hold `held`, and those of the new ones
what their placements say. -/
structure Settled (e e' : Editor) (ps : List Placement) (held : Place → Option Handle) : Prop where
  old : ∀ q : Place, q.owner < e.graph.nextHandle → e'.graph.at? q = held q
  new : ∀ p ∈ ps, ∀ k, e'.graph.at? ⟨p.handle, k⟩ = p.at? k

theorem bare_node (p : Placement) : p.node.bare = (Placement.node ⟨p.entry, p.handle, none, [], none⟩).bare := by
  unfold Placement.node Node.bare
  simp only [map_map]
  rfl

namespace Grows

variable {e e₁ e₂ : Editor} {qs : List Placement} {freed freed' : Handle → Prop}

theorem refl (he : Idle e) : Grows e e [] fun _ => False where
  toIdle := he
  next := rfl
  le := nofun
  old := fun _ _ => rfl
  new := nofun
  isRoot_iff := fun _ => (or_false _).symm.to_iff

theorem congr (h : Grows e e₁ ps freed) (hfreed : ∀ x, freed x ↔ freed' x) : Grows e e₁ ps freed' :=
  { h with isRoot_iff := fun x => (h.isRoot_iff x).trans (or_congr_right (hfreed x)) }

theorem next_le (h : Grows e e₁ ps freed) : e.graph.nextHandle ≤ e₁.graph.nextHandle :=
  h.next ▸ Nat.le_add_right _ _

theorem lt (h : Grows e e₁ ps freed) (hp : p ∈ ps) : p.handle < e₁.graph.nextHandle := by
  obtain ⟨n, hn, -⟩ := Option.map_eq_some_iff.mp (h.new p hp)
  exact (lt_nextHandle_of_get? hn).2

theorem trans (h₁ : Grows e e₁ ps freed) (h₂ : Grows e₁ e₂ qs freed') :
    Grows e e₂ (ps ++ qs) fun x => freed x ∨ freed' x where
  toIdle := h₂.toIdle
  next := by rw [h₂.next, h₁.next, length_append, Nat.add_assoc]
  le := forall_mem_append.mpr ⟨h₁.le, fun p hp => Nat.le_trans h₁.next_le (h₂.le p hp)⟩
  old := fun h hh => (h₂.old h (Nat.lt_of_lt_of_le hh h₁.next_le)).trans (h₁.old h hh)
  new := forall_mem_append.mpr ⟨fun p hp => (h₂.old _ (h₁.lt hp)).trans (h₁.new p hp), h₂.new⟩
  isRoot_iff := fun x => by rw [h₂.isRoot_iff, h₁.isRoot_iff, or_assoc]

theorem next_place {entry : Json} {parent : Option Place} {next : Option Handle}
    (hgrows : Grows e e₁ ((outline entry).place h parent next) freed) :
    e.graph.nextHandle + (outline entry).count = e₁.graph.nextHandle := by
  rw [hgrows.next, ← length_map (·.handle), Outline.map_handle_place, length_range']

theorem settled (h₁ : Grows e e₁ ps freed) {held held' : Place → Option Handle}
    (h₂ : Settled e₁ e₂ qs held') (hold : ∀ q : Place, q.owner < e.graph.nextHandle → held' q = held q)
    (hnew : ∀ p ∈ ps, ∀ k, held' ⟨p.handle, k⟩ = p.at? k) : Settled e e₂ (ps ++ qs) held where
  old := fun q hq => (h₂.old q (Nat.lt_of_lt_of_le hq h₁.next_le)).trans (hold q hq)
  new := forall_mem_append.mpr ⟨fun p hp k => (h₂.old ⟨p.handle, k⟩ (h₁.lt hp)).trans (hnew p hp k), h₂.new⟩

end Grows

/-- **A piece has been built**: it stands on its own, under the next handle, and nothing else has changed
but for what was displaced in it. -/
structure Raises (e e' : Editor) (child : Handle) (ps : List Placement) : Prop where
  child_eq : child = e.graph.nextHandle
  grows : Grows e e' ps fun x => x = child ∨ x ∈ displaced ps
  keeps : ∀ x < e.graph.nextHandle, Keeps e e' x
  lt : ∀ x ∈ displaced ps, child < x

namespace Raises

variable {e e₁ : Editor} {child : Handle} {place : Place} {after : Option Place}
  {seen : Node → Node → Graph} {edit : Edit}

theorem isRoot (h : Raises e e₁ child ps) : e₁.graph.IsRoot child :=
  (h.grows.isRoot_iff child).mpr (.inr (.inl rfl))

theorem plug (h : Raises e e₁ child ps) (hputs : e₁.graph.Puts child place after seen edit)
    (hafter : ∀ q, after = some q → q.connection = nextPosition) :
    Grows e (e₁.commit edit) ps (fun x => x ∈ displaced ps ∨ after = none ∧ e₁.graph.at? place = some x)
      ∧ ∀ x < e.graph.nextHandle, ∀ k ≠ nextPosition, (e₁.commit edit).graph.at? ⟨x, k⟩
        = if (⟨x, k⟩ : Place) = place then some child else e.graph.at? ⟨x, k⟩ := by
  have hgraph := (commit_of_unwatched h.grows.unwatched edit).1
  have hgrows := h.grows
  rw [hgraph]
  refine ⟨⟨hgrows.toIdle.commit hputs.forest, ?_, hgrows.le, fun x hx => ?_, fun p hp => ?_,
    fun x => ?_⟩, fun x hx k hk => ?_⟩
  · rw [hgraph]
    exact hputs.alike.next.trans hgrows.next
  · rw [hgraph]
    exact (hputs.alike.bare x).trans (hgrows.old x hx)
  · rw [hgraph]
    exact (hputs.alike.bare _).trans (hgrows.new p hp)
  · have hold : e.graph.IsRoot x → x ≠ child := fun hx => h.child_eq ▸ Nat.ne_of_lt hx.lt_nextHandle
    have hnew : x ∈ displaced ps → x ≠ child := fun hx => Nat.ne_of_gt (h.lt x hx)
    rw [hgraph, hputs.isRoot_iff hgrows.forest h.isRoot, hgrows.isRoot_iff]
    tauto
  · split
    · next heq => rw [heq, hputs.at?_place]
    · next hne =>
      rw [hputs.at?_of_ne hgrows.forest h.isRoot hne fun e => absurd (hafter _ e) hk]
      exact h.keeps x hx k hk

theorem settle (h : Raises e e₁ child ps) (hsettled : Settled e e₁ ps e.graph.at?)
    (hputs : e₁.graph.Puts child place after seen edit) (howner : place.owner < e.graph.nextHandle)
    (hempty : e.graph.at? place = none) : Settled e (e₁.commit edit) ps fun q =>
      if q = place then some child else e.graph.at? q := by
  have hother : ∀ q, q ≠ place → (e₁.commit edit).graph.at? q = e₁.graph.at? q := by
    intro q hq
    rw [(commit_of_unwatched h.grows.unwatched edit).1]
    exact hputs.at?_of_ne h.grows.forest h.isRoot hq fun _ => (hsettled.old _ howner).trans hempty
  refine ⟨fun q hq => ?_, fun p hp k => ?_⟩
  · split
    · next heq =>
      rw [heq, (commit_of_unwatched h.grows.unwatched edit).1]
      exact hputs.at?_place
    · next hne => exact (hother q hne).trans (hsettled.old q hq)
  · refine (hother _ ?_).trans (hsettled.new p hp k)
    rintro rfl
    exact absurd howner (Nat.not_lt.mpr (h.grows.le p hp))

end Raises

/-! ## Building -/

theorem Linked.lt_of_mem_displaced (hps : Linked ps)
    (hhandles : ps.map (·.handle) = range' h ps.length) (hx : x ∈ displaced ps) : h < x := by
  obtain ⟨p, hp, hlt, -⟩ := hps.of_mem_displaced hx
  have hmem : p.handle ∈ range' h ps.length := hhandles ▸ mem_map_of_mem hp
  exact Nat.lt_of_le_of_lt (List.mem_range'_1.mp hmem).1 hlt

theorem contains_valueSlots_of_bare
    (hn : n.bare = (Placement.node ⟨entry, h, none, [], none⟩).bare) (slot : String) :
    n.valueSlots.contains slot = (socketsOf entry).1.any (·.name == slot) := by
  have hbare : ∀ m : Node, m.bare.valueSlots.contains slot = m.valueSlots.contains slot := by
    intro m
    rw [Bool.eq_iff_iff, Table.contains_iff, Table.contains_iff, m.names_valueSlots_bare]
  rw [← hbare, hn, hbare, contains_valueSlots_node]

theorem any_name_iff {slot : String} :
    (socketsOf entry).1.any (·.name == slot) = true ↔ slot ∈ valueSockets entry := by
  simp [valueSockets]

theorem Idle.createBlock (he : Idle e)
    (hentry : entry = .object (membersIn entry))
    (hread : readEntry .builtin (membersIn entry) = .ok read)
    (hg : Gives (createBlock read) e child e') (hp : p.entry = entry)
    (hhandle : p.handle = e.graph.nextHandle) :
    child = e.graph.nextHandle ∧ Grows e e' [p] (· = e.graph.nextHandle)
      ∧ ∀ q, e'.graph.at? q = if q.owner = e.graph.nextHandle then none else e.graph.at? q := by
  obtain ⟨hchild, -, edit, hcreate, rfl, hedit⟩ := exists_of_createBlock he.forest.builtin hread hg
  rw [← hentry, ← hp] at hedit
  have hpush := (commit_of_unwatched he.unwatched edit).1.trans hedit
  refine ⟨hchild, ⟨he.commit (he.forest.create hcreate).1.forest, ?_, ?_, fun h hh => ?_, ?_,
    fun x => ?_⟩, fun q => ?_⟩
  · rw [hpush, nextHandle_push]
    rfl
  · exact List.forall_mem_singleton.mpr (Nat.le_of_eq hhandle.symm)
  · rw [hpush, get?_push, if_neg (Nat.ne_of_lt hh)]
  · refine List.forall_mem_singleton.mpr ?_
    rw [hpush, get?_push, if_pos hhandle, bare_node p, hhandle]
    rfl
  · rw [hpush, isRoot_push rfl]
  · unfold Graph.at?
    rw [hpush, get?_push]
    split
    · rw [Option.bind_some]
      refine at?_eq_none_of_bare rfl (fun e he => ?_) (fun e he => ?_) _
      · obtain ⟨s, -, rfl⟩ := mem_map.mp he
        rfl
      · obtain ⟨s, -, rfl⟩ := mem_map.mp he
        rfl
    · rfl

/-- **Building the block of an entry** raises a piece. If no block has two inputs for a socket, then every
place holds what the placements say. -/
def BuildsBlock (entry : Json) : Prop :=
  ∀ {e e' : Editor} {child : Handle}, Idle e → Gives (buildBlock entry) e child e' →
    ∀ parent next, Raises e e' child ((outline entry).place e.graph.nextHandle parent next)
      ∧ (Distinct ((outline entry).place e.graph.nextHandle parent none) →
        Settled e e' ((outline entry).place e.graph.nextHandle parent none) e.graph.at?)

def BuildsNext (entry : Json) : Prop :=
  ∀ {e e' : Editor} {h previous : Handle}, Idle e → h = e.graph.nextHandle → previous < h →
    Gives (buildNext previous entry) e () e' → ∀ parent,
    let ps := placeChain h parent (outlineNext entry)
    Grows e e' ps (· ∈ displaced ps) ∧ (∀ x < h, Keeps e e' x)
      ∧ (Distinct ps → e.graph.at? ⟨previous, nextPosition⟩ = none → Settled e e' ps fun q =>
        if q = ⟨previous, nextPosition⟩ then if (outlineNext entry).isEmpty then none else some h
        else e.graph.at? q)

/-- **What building an entry does.** -/
structure Builds (entry : Json) : Prop where
  block : BuildsBlock entry
  next : BuildsNext entry

theorem Grows.settled_place {e₁ : Editor}
    {freed : Handle → Prop} {held : Place → Option Handle}
    (hgrows : Grows e e₁ ((outline entry).place e.graph.nextHandle parent next) freed)
    (hsettled : Settled e e₁ ((outline entry).place e.graph.nextHandle parent none) held) :
    e₁.graph.at? ⟨e.graph.nextHandle, nextPosition⟩ = none ∧ ∀ {e₂ : Editor} {qs : List Placement},
      Settled e₁ e₂ qs (fun q => if q = ⟨e.graph.nextHandle, nextPosition⟩ then next else e₁.graph.at? q) →
        Settled e e₂ ((outline entry).place e.graph.nextHandle parent next ++ qs) held := by
  obtain ⟨c, rs, hc, hlt, hplace⟩ := exists_place e.graph.nextHandle entry
  rw [hplace] at hsettled
  obtain ⟨hown, hbelow⟩ := forall_mem_cons.mp hsettled.new
  refine ⟨by rw [← hc]; exact (hown nextPosition).trans (if_pos rfl), fun hrest =>
    hgrows.settled hrest (fun q hq => ?_) ?_⟩
  · rw [if_neg (by rintro rfl; exact Nat.lt_irrefl _ hq)]
    exact hsettled.old q hq
  · rw [hplace]
    refine forall_mem_cons.mpr ⟨fun k => ?_, fun p hp k => ?_⟩
    · unfold Placement.at?
      by_cases hk : k = nextPosition
      · rw [if_pos hk, if_pos (by rw [hk, ← hc])]
      · rw [if_neg hk, if_neg fun e => hk (congrArg Place.connection e)]
        exact (hown k).trans (if_neg hk)
    · rw [if_neg fun e => Nat.ne_of_gt (hlt p hp) (congrArg Place.owner e)]
      exact hbelow p hp k

theorem distinct_place
    (hd : Distinct ((outline entry).place h parent next)) : Distinct ((outline entry).place h parent none) := by
  rw [outline, Outline.place] at hd ⊢
  obtain ⟨hnodup, hbelow⟩ := distinct_cons.mp hd
  exact distinct_cons.mpr ⟨hnodup, hbelow⟩

theorem Builds.chain (hentry : Builds entry) (he : Idle e)
    (hg : Gives (buildChain entry) e child e') (parent : Option Place) :
    Raises e e' child (placeChain e.graph.nextHandle parent (outlineChain entry))
      ∧ (Distinct (placeChain e.graph.nextHandle parent (outlineChain entry)) →
        Settled e e' (placeChain e.graph.nextHandle parent (outlineChain entry)) e.graph.at?) := by
  obtain ⟨e₁, hblock, hnext⟩ := gives_buildChain_iff.mp hg
  have hlinked := (linked_place entry).2 e.graph.nextHandle parent
  have hhandles := map_handle_placeChain (outlineChain entry) e.graph.nextHandle parent
  rw [← length_placeChain (outlineChain entry) e.graph.nextHandle parent] at hhandles
  rw [outlineChain, placeChain] at hlinked hhandles ⊢
  obtain ⟨hraises, hsettled⟩ := hentry.block he hblock parent
    (if (outlineNext entry).isEmpty then none else some (e.graph.nextHandle + (outline entry).count))
  obtain rfl := hraises.child_eq
  obtain ⟨hgrows, hkeeps, hrest⟩ := hentry.next hraises.grows.toIdle hraises.grows.next_place
    (Nat.lt_add_of_pos_right (count_outline_pos entry)) hnext (some ⟨e.graph.nextHandle, nextPosition⟩)
  refine ⟨⟨rfl, (hraises.grows.trans hgrows).congr fun x => ?_, fun x hx k hk => ?_,
    fun x hx => hlinked.lt_of_mem_displaced hhandles hx⟩, fun hd => ?_⟩
  · rw [mem_displaced_append]
    exact or_assoc
  · exact (hkeeps x (Nat.lt_add_right _ hx) k hk).trans (hraises.keeps x hx k hk)
  · obtain ⟨hhead, hothers⟩ := distinct_append.mp hd
    obtain ⟨hlast, happend⟩ := hraises.grows.settled_place (hsettled (distinct_place hhead))
    exact happend (hrest hothers hlast)

theorem ne_nextPosition_of_mem_valueSockets {owner : Handle} {slot : String} (he : Idle e)
    (hbare : (e.graph.get? owner).map Node.bare = some (Placement.node ⟨entry, owner, none, [], none⟩).bare)
    (hslot : slot ∈ valueSockets entry) : slot ≠ nextPosition := by
  obtain ⟨n, hn, hnbare⟩ := Option.map_eq_some_iff.mp hbare
  obtain ⟨-, spec, hconforms⟩ := he.forest.sound hn
  rw [← any_name_iff, ← contains_valueSlots_of_bare hnbare] at hslot
  obtain ⟨v, hv⟩ := Option.isSome_iff_exists.mp hslot
  exact hconforms.ne_nextPosition hv

/-- **What is behind an input has been built and plugged in.** -/
theorem Idle.exists_puts_plug {below : Json} {owner : Handle} {input slot : String} (he : Idle e)
    (hbelow : Builds below)
    (hbare : (e.graph.get? owner).map Node.bare = some (Placement.node ⟨entry, owner, none, [], none⟩).bare)
    (hpalette : read.palette = paletteOf entry) (hslot : (paletteOf entry).input input = slot)
    (hg : Gives (plug read owner input (some below)) e () e') :
    ∃ chain child e₁ after seen edit, (if (socketsOf entry).1.any (·.name == slot) then [outline below]
        else outlineChain below) = chain
      ∧ Raises e e₁ child (placeChain e.graph.nextHandle (some ⟨owner, slot⟩) chain)
      ∧ (Distinct (placeChain e.graph.nextHandle (some ⟨owner, slot⟩) chain) →
        Settled e e₁ (placeChain e.graph.nextHandle (some ⟨owner, slot⟩) chain) e.graph.at?)
      ∧ e₁.graph.Puts child ⟨owner, slot⟩ after seen edit ∧ e' = e₁.commit edit
      ∧ slot ≠ nextPosition ∧ (after = none ↔ slot ∈ valueSockets entry)
      ∧ ∀ q, after = some q → q.connection = nextPosition := by
  obtain ⟨n, hn, hnbare⟩ := Option.map_eq_some_iff.mp hbare
  obtain ⟨-, spec, hconforms⟩ := he.forest.sound hn
  obtain ⟨child, e₁, hsub⟩ := gives_plug_iff.mp hg
  rw [hn, Option.getD_some, contains_valueSlots_of_bare hnbare, hpalette, hslot] at hsub
  rcases hsub with ⟨hvalue, hblock, hconnect⟩ | ⟨hvalue, hstatement, hbuild, hconnect⟩
  · obtain ⟨hraises, hsettled⟩ := hbelow.block he hblock (some ⟨owner, slot⟩) none
    obtain ⟨edit, hedit, rfl⟩ := exists_of_connect (f := (·.connectValue owner slot child))
      (eq_object_of_gives hblock) rfl hconnect
    obtain ⟨-, -, -, -, -, -, hputs⟩ := hraises.grows.forest.puts_connectValue hedit
    have hmem := any_name_iff.mp hvalue
    refine ⟨_, child, e₁, none, _, edit, if_pos hvalue, ?_, ?_, hputs, rfl,
      ne_nextPosition_of_mem_valueSockets he hbare hmem, by simp [hmem], by simp⟩
    all_goals rw [placeChain, placeChain, append_nil]
    · exact hraises
    · exact hsettled
  · obtain ⟨hraises, hsettled⟩ := hbelow.chain he hbuild (some ⟨owner, slot⟩)
    obtain ⟨_, hblock, -⟩ := gives_buildChain_iff.mp hbuild
    obtain ⟨edit, hedit, rfl⟩ := exists_of_connect (f := (·.connectStatement owner slot child))
      (eq_object_of_gives hblock) rfl hconnect
    obtain ⟨tail, hputs⟩ := hraises.grows.forest.puts_connectStatement hedit
    have hmem : slot ∉ valueSockets entry := by
      rw [← any_name_iff, hvalue]
      exact Bool.false_ne_true
    exact ⟨_, child, e₁, _, _, edit, if_neg (by rw [hvalue]; exact Bool.false_ne_true), hraises, hsettled, hputs,
      rfl, (ChainPosition.slot_of_isOf hconforms hstatement).1, by simp [hmem], fun q hq => by cases hq; rfl⟩

theorem Idle.buildInputs {inputs : List (String × Json)}
    (hbelow : ∀ i ∈ inputs, ∀ below, behind i.2 = some below → Builds below) (he : Idle e)
    {owner h : Handle} (hh : h = e.graph.nextHandle)
    (hbare : (e.graph.get? owner).map Node.bare = some (Placement.node ⟨entry, owner, none, [], none⟩).bare)
    (hpalette : read.palette = paletteOf entry) (hg : Gives (buildInputs read owner inputs) e () e') :
    let ps := placeInputs owner h (outlineInputs entry inputs)
    let hs := inputHandles h (outlineInputs entry inputs)
    Grows e e' ps (fun x => x ∈ displaced ps
        ∨ FreedBy (valueSockets entry) (fun s => e.graph.at? ⟨owner, s⟩) hs x)
      ∧ (∀ x < h, x ≠ owner → Keeps e e' x) ∧ nextPosition ∉ hs.names
      ∧ (Distinct ps → hs.names.Nodup → (∀ s ∈ hs.names, e.graph.at? ⟨owner, s⟩ = none) → Settled e e' ps fun q =>
          if q.owner = owner then (hs.get? q.connection).or (e.graph.at? q) else e.graph.at? q) := by
  induction inputs generalizing e h with
  | nil =>
    rw [Workspace.buildInputs] at hg
    obtain ⟨-, rfl⟩ := gives_pure_iff.mp hg
    rw [outlineInputs]
    refine ⟨(Grows.refl he).congr fun x => iff_of_false id ?_, fun _ _ _ _ _ => rfl, not_mem_nil,
      fun _ _ _ => ⟨fun q _ => ?_, forall_mem_nil _⟩⟩
    · rintro (hx | hx | ⟨_, hs, -⟩)
      · cases hx
      · cases hx
      · cases hs
    · exact (ite_self _).symm
  | cons i rest ih =>
    obtain ⟨hfirst, hothers⟩ := forall_mem_cons.mp hbelow
    obtain ⟨input, connection⟩ := i
    rw [buildInputs_cons] at hg
    obtain ⟨linked, hlinked, hg⟩ := gives_lift_bind_iff.mp hg
    have hbehind := eq_behind hlinked
    cases linked with
    | none =>
      rw [outlineInputs_of_none hbehind.symm]
      exact ih hothers he hh hbare hg
    | some below =>
    obtain ⟨⟨⟩, _, hplug, hrest⟩ := gives_bind_iff.mp hg
    rw [outlineInputs_of_some hbehind.symm]
    have hsockets : ∀ s ∈ valueSockets entry, s ≠ nextPosition := fun s =>
      ne_nextPosition_of_mem_valueSockets he hbare
    have howner : owner < e.graph.nextHandle := by
      obtain ⟨n, hn, -⟩ := Option.map_eq_some_iff.mp hbare
      exact (lt_nextHandle_of_get? hn).2
    generalize hslot : (paletteOf entry).input input = slot
    obtain ⟨chain, child, e₁, after, seen, edit, hchain, hraises, hsettled, hputs, rfl, hne, hvalue, hafter⟩ :=
      he.exists_puts_plug (hfirst below hbehind.symm) hbare hpalette hslot hplug
    rw [← hh] at hraises hsettled
    rw [hchain]
    obtain ⟨hgrows, hat⟩ := hraises.plug hputs hafter
    have hnext : h + countChain chain = (e₁.commit edit).graph.nextHandle := by
      rw [hgrows.next, length_placeChain, hh]
    obtain ⟨hgrowsRest, hkeeps, hnames, hsettledRest⟩ :=
      ih hothers hgrows.toIdle hnext ((hgrows.old owner howner).trans hbare) hrest
    rw [hraises.child_eq, ← hh] at hat
    rw [placeInputs, inputHandles]
    refine ⟨(hgrows.trans hgrowsRest).congr fun x => ?_, fun x hx hxo k hk => ?_,
      not_mem_cons_of_ne_of_not_mem hne.symm hnames, fun hd hnodup hempty => ?_⟩
    · have hafter : ∀ s ∈ valueSockets entry, (e₁.commit edit).graph.at? ⟨owner, s⟩
          = if s = slot then some h else e.graph.at? ⟨owner, s⟩ := by
        intro s hs
        rw [hat owner (hh ▸ howner) s (hsockets s hs)]
        simp only [Place.mk.injEq, true_and]
      rw [freedBy_cons hafter, mem_displaced_append, hvalue, hraises.keeps owner howner slot hne]
      exact or_or_or_comm
    · rw [hkeeps x (Nat.lt_add_right _ hx) hxo k hk, hat x hx k hk, if_neg fun e => hxo (congrArg Place.owner e)]
    · obtain ⟨hown, hdrest⟩ := distinct_append.mp hd
      obtain ⟨hnew, hnodup⟩ := nodup_cons.mp hnodup
      obtain ⟨hslotEmpty, hempty⟩ := forall_mem_cons.mp hempty
      have hplugged := hraises.settle (hsettled hown) hputs howner hslotEmpty
      rw [hraises.child_eq, ← hh] at hplugged
      have hempty' : ∀ s ∈ Table.names (inputHandles (h + countChain chain) (outlineInputs entry rest)),
          (e₁.commit edit).graph.at? ⟨owner, s⟩ = none := by
        intro s hs
        rw [hplugged.old _ howner, if_neg (by rintro ⟨⟩; exact hnew hs)]
        exact hempty s hs
      refine hgrows.settled (hsettledRest hdrest hnodup hempty') (fun q hq => ?_) fun p hp k => ?_
      · rw [hplugged.old q hq, Table.get?_cons]
        split
        · next ho =>
          by_cases hk : slot = q.connection
          · rw [if_pos hk, if_pos (by rw [← ho, hk]), Table.get?_eq_none_iff.mpr (hk ▸ hnew)]
            rfl
          · rw [if_neg hk, if_neg fun e => hk (congrArg Place.connection e).symm]
        · next ho => rw [if_neg fun e => ho (congrArg Place.owner e)]
      · rw [if_neg (Nat.ne_of_gt (Nat.lt_of_lt_of_le howner (hgrows.le p hp)))]
        exact hplugged.new p hp k

theorem buildsBlock (hbelow : ∀ i ∈ membersIn (member (membersIn entry) "inputs"),
    ∀ below, behind i.2 = some below → Builds below) : BuildsBlock entry := by
  intro e e' child he hg parent next
  have hentry := eq_object_of_gives hg
  rw [hentry] at hg
  obtain ⟨read, e₁, stated, hread, hcreate, hstated, hinputs⟩ := gives_buildBlock_iff.mp hg
  rw [eq_membersIn hstated] at hinputs
  rw [he.forest.builtin] at hread
  have hpalette := (readEntry_eq hread).2.1
  rw [← hentry] at hpalette
  have hlinked := (linked_place entry).1 e.graph.nextHandle parent
  have hhandles := (outline entry).map_handle_place e.graph.nextHandle parent none
  have hlength := congrArg length hhandles
  rw [length_map, length_range'] at hlength
  rw [← hlength] at hhandles
  rw [outline, Outline.place] at hhandles hlinked
  rw [outline, Outline.place, Outline.place]
  generalize hdescribed : outlineInputs entry (membersIn (member (membersIn entry) "inputs")) = inputs
    at hhandles hlinked ⊢
  obtain ⟨rfl, hgrows, hat⟩ := he.createBlock hentry hread hcreate
    (p := ⟨entry, e.graph.nextHandle, parent, inputHandles (e.graph.nextHandle + 1) inputs, next⟩) rfl rfl
  have hempty : ∀ k, e₁.graph.at? ⟨e.graph.nextHandle, k⟩ = none := fun k => (hat _).trans (if_pos rfl)
  have hbare := hgrows.new _ mem_cons_self
  rw [bare_node] at hbare
  obtain ⟨hgrowsInputs, hkeepsInputs, hnames, hsettled⟩ :=
    Idle.buildInputs hbelow hgrows.toIdle (h := e.graph.nextHandle + 1) hgrows.next.symm hbare hpalette hinputs
  rw [hdescribed] at hgrowsInputs hnames hsettled
  refine ⟨⟨rfl, (hgrows.trans hgrowsInputs).congr fun x => or_congr_right ?_, fun x hx k hk => ?_,
    fun x hx => hlinked.lt_of_mem_displaced hhandles hx⟩, fun hd => ?_⟩
  · -- the sockets of the new block are empty, so that only later inputs displace what is behind one
    have hfreed : FreedBy (valueSockets entry) (fun s => e₁.graph.at? ⟨e.graph.nextHandle, s⟩)
        (inputHandles (e.graph.nextHandle + 1) inputs) x
        ↔ x ∈ overridden (valueSockets entry) (inputHandles (e.graph.nextHandle + 1) inputs) := by
      refine or_iff_left ?_
      rintro ⟨s, -, -, hs⟩
      cases (hempty s).symm.trans hs
    exact ((or_congr_right hfreed).trans or_comm).trans mem_append.symm
  · rw [hkeepsInputs x (Nat.lt_succ_of_lt hx) (Nat.ne_of_lt hx) k hk, hat, if_neg (Nat.ne_of_lt hx)]
  · obtain ⟨hown, hothers⟩ := distinct_cons.mp hd
    have hsettled := hsettled hothers hown fun s _ => hempty s
    refine ⟨fun q hq => ?_, forall_mem_cons.mpr ⟨fun k => ?_, hsettled.new⟩⟩
    · rw [hsettled.old q (Nat.lt_of_lt_of_le hq hgrows.next_le), if_neg (Nat.ne_of_lt hq), hat,
        if_neg (Nat.ne_of_lt hq)]
    · refine (hsettled.old ⟨e.graph.nextHandle, k⟩ (hgrows.lt mem_cons_self)).trans ?_
      rw [if_pos rfl, hempty, Option.or_none]
      unfold Placement.at?
      split
      · next hk => exact Table.get?_eq_none_iff.mpr (hk ▸ hnames)
      · rfl

theorem buildsNext (hfollowing : ∀ following,
    behind (member (membersIn entry) "next") = some following → Builds following) : BuildsNext entry := by
  intro e e' h previous he hh hlt hg parent
  rcases gives_buildNext_iff.mp hg with ⟨hnone, rfl⟩ |
    ⟨following, child, e₁, e₂, hlinked, hblock, hconnect, hnext⟩
  · rw [outlineNext_of_none (eq_behind hnone).symm]
    refine ⟨(Grows.refl he).congr fun x => iff_of_false id not_mem_nil, fun _ _ _ _ => rfl,
      fun _ hempty => ⟨fun q _ => ?_, nofun⟩⟩
    split
    · next heq => rw [heq, hempty, if_pos (by rfl)]
    · rfl
  · subst hh
    have hsome := (eq_behind hlinked).symm
    have hbuilds := hfollowing following hsome
    rw [outlineNext_of_some hsome, outlineChain, placeChain]
    obtain ⟨hraises₀, hsettled⟩ := hbuilds.block he hblock parent none
    have hraises := (hbuilds.block he hblock parent (if (outlineNext following).isEmpty then none
      else some (e.graph.nextHandle + (outline following).count))).1
    obtain rfl := hraises.child_eq
    obtain ⟨edit, tail, hputs, rfl⟩ :=
      hraises.grows.toIdle.exists_puts_connectNext (eq_object_of_gives hblock) hconnect
    obtain ⟨hgrows, hat⟩ := hraises.plug hputs fun q hq => by cases hq; rfl
    obtain ⟨hgrowsRest, hkeeps, hrest⟩ := hbuilds.next hgrows.toIdle hgrows.next_place
      (Nat.lt_add_of_pos_right (count_outline_pos following)) hnext (some ⟨e.graph.nextHandle, nextPosition⟩)
    refine ⟨(hgrows.trans hgrowsRest).congr fun x => ?_, fun x hx k hk => ?_, fun hd hempty => ?_⟩
    · rw [mem_displaced_append]
      exact or_congr_left (or_iff_left fun h => Option.some_ne_none _ h.1)
    · rw [hkeeps x (Nat.lt_add_right _ hx) k hk, hat x hx k hk, if_neg fun e => hk (congrArg Place.connection e)]
    · obtain ⟨hhead, hothers⟩ := distinct_append.mp hd
      have hplugged := hraises₀.settle (hsettled (distinct_place hhead)) hputs hlt hempty
      obtain ⟨hlast, happend⟩ := hgrows.settled_place hplugged
      exact happend (hrest hothers hlast)

theorem builds (entry : Json) : Builds entry := by
  induction entry using induct_entry with
  | step entry hbelow hfollowing =>
    exact ⟨buildsBlock hbelow, buildsNext hfollowing⟩

theorem exists_top_placeChain_iff (h : Handle) (entry : Json) (x : Handle) :
    (∃ p ∈ placeChain h none (outlineChain entry), p.parent = none ∧ p.handle = x) ↔ x = h := by
  obtain ⟨c, hfilter, -, rfl⟩ := filter_placeChain h entry
  have hmem : ∀ p, p ∈ placeChain c.handle none (outlineChain entry) ∧ p.parent = none ↔ p = c := by
    intro p
    rw [← Option.isNone_iff_eq_none, ← mem_filter (p := fun q : Placement => q.parent.isNone), hfilter, mem_singleton]
  constructor
  · rintro ⟨p, hp, hparent, rfl⟩
    rw [(hmem p).mp ⟨hp, hparent⟩]
  · rintro rfl
    obtain ⟨hc, hparent⟩ := (hmem c).mpr rfl
    exact ⟨c, hc, hparent, rfl⟩

theorem Idle.buildAll {entries : List Json} (he : Idle e) (hh : h = e.graph.nextHandle)
    (hg : Gives (buildAll entries) e () e') :
    let ps := placeAll h entries
    Grows e e' ps (fun x => (∃ p ∈ ps, p.parent = none ∧ p.handle = x) ∨ x ∈ displaced ps)
      ∧ (Distinct ps → Settled e e' ps e.graph.at?) := by
  induction entries generalizing e h with
  | nil =>
    obtain ⟨-, rfl⟩ := gives_pure_iff.mp hg
    exact ⟨(Grows.refl he).congr fun x => iff_of_false id (by rintro (⟨_, hp, -⟩ | hx) <;> contradiction),
      fun _ => ⟨fun _ _ => rfl, nofun⟩⟩
  | cons entry rest ih =>
    rw [Workspace.buildAll, discard_eq, bind_assoc] at hg
    obtain ⟨child, e₁, hchain, hg⟩ := gives_bind_iff.mp hg
    obtain ⟨hraises, hsettled⟩ := (builds entry).chain he hchain none
    rw [← hh] at hraises hsettled
    have hgrows := hraises.grows
    have hstart : h + countChain (outlineChain entry) = e₁.graph.nextHandle := by
      rw [hgrows.next, length_placeChain, hh]
    obtain ⟨hgrowsRest, hsettledRest⟩ := ih hgrows.toIdle hstart hg
    rw [placeAll]
    refine ⟨(hgrows.trans hgrowsRest).congr fun x => ?_, fun hd => ?_⟩
    · rw [hraises.child_eq, ← hh, ← exists_top_placeChain_iff h entry x, mem_displaced_append]
      simp only [mem_append, or_and_right, exists_or]
      exact or_or_or_comm
    · obtain ⟨hown, hothers⟩ := distinct_append.mp hd
      exact hgrows.settled (hsettledRest hothers) (hsettled hown).old (hsettled hown).new

theorem exists_of_toGraph (hload : toGraph workspace = .ok g) :
    ∃ entries e, topEntries workspace = .ok entries ∧ placements workspace = placeAll 1 entries
      ∧ Gives (buildAll entries) {} () e ∧ e.graph = g := by
  unfold toGraph loadInto load at hload
  unfold placements
  cases htop : topEntries workspace with
  | error cause =>
    rw [htop] at hload
    cases hload
  | ok entries =>
    rw [htop] at hload
    split at hload
    · next e hg =>
      cases hload
      exact ⟨entries, e, rfl, rfl, hg, rfl⟩
    · cases hload

/-- **What a loaded program consists of**, whatever the entries were: a block for each of the placements, which
is that of the placement up to links. The blocks that stand on their own are known, and so is what is where if
no block has two inputs that stand for the same socket. -/
structure Loaded (ps : List Placement) (g : Graph) (block : Placement → Node) : Prop where
  forest : g.Forest
  nodes_eq : g.nodes = ps.map block
  get? : ∀ p ∈ ps, g.get? p.handle = some (block p)
  bare : ∀ p ∈ ps, (block p).bare = p.node.bare
  isRoot_iff : ∀ x, g.IsRoot x ↔ (∃ p ∈ ps, p.parent = none ∧ p.handle = x) ∨ x ∈ displaced ps
  at? : Distinct ps → ∀ p ∈ ps, ∀ k, (block p).at? k = p.at? k

theorem exists_loaded (hload : toGraph workspace = .ok g) : ∃ block, Loaded (placements workspace) g block := by
  obtain ⟨entries, e, -, hps, hg, rfl⟩ := exists_of_toGraph hload
  obtain ⟨hgrows, hsettled⟩ := Idle.buildAll (e := {}) (h := 1) ⟨.empty, rfl⟩ rfl hg
  rw [← hps] at hgrows hsettled
  have hget : ∀ p ∈ placements workspace, e.graph.get? p.handle = some ((e.graph.get? p.handle).getD p.node) := by
    intro p hp
    obtain ⟨n, hn, -⟩ := Option.map_eq_some_iff.mp (hgrows.new p hp)
    rw [hn, Option.getD_some]
  refine ⟨fun p => (e.graph.get? p.handle).getD p.node, hgrows.forest, ?_, hget, fun p hp => ?_,
    fun x => (hgrows.isRoot_iff x).trans (or_iff_right ?_), fun hd p hp k => ?_⟩
  · have hsize : e.graph.cells.size = (placements workspace).length := by
      have hnext : e.graph.cells.size + 1 = 0 + 1 + (placements workspace).length := hgrows.next
      omega
    have hhandles : (List.range e.graph.cells.size).map (· + 1) = (placements workspace).map (·.handle) := by
      rw [hsize, hps, map_handle_placeAll, range'_eq_map_range]
      exact map_congr_left fun i _ => Nat.add_comm i 1
    calc e.graph.nodes = ((List.range e.graph.cells.size).map (· + 1)).filterMap e.graph.get? := by
          rw [nodes_eq, filterMap_map]
          rfl
      _ = (placements workspace).filterMap fun p => e.graph.get? p.handle := by
          rw [hhandles, filterMap_map]
          rfl
      _ = (placements workspace).filterMap (some ∘ fun p => (e.graph.get? p.handle).getD p.node) :=
          filterMap_congr hget
      _ = _ := congrFun filterMap_eq_map _
  · have hbare := hgrows.new p hp
    rw [hget p hp] at hbare
    exact Option.some.inj hbare
  · rintro hx
    obtain ⟨n, hn, -⟩ := Graph.isRoot_iff.mp hx
    cases x <;> cases hn
  · rw [← (hsettled hd).new p hp k, at?_of_get? (p := ⟨p.handle, k⟩) (hget p hp)]

theorem forest_of_toGraph (hload : toGraph workspace = .ok g) : g.Forest :=
  (exists_loaded hload).elim fun _ hloaded => hloaded.forest

theorem exists_placement (hload : toGraph workspace = .ok g) (hn : n ∈ g.nodes) :
    ∃ p ∈ placements workspace, p.node.bare = n.bare := by
  obtain ⟨block, hloaded⟩ := exists_loaded hload
  rw [hloaded.nodes_eq] at hn
  obtain ⟨p, hp, rfl⟩ := mem_map.mp hn
  exact ⟨p, hp, (hloaded.bare p hp).symm⟩

theorem linked_placements (workspace : Json) : Linked (placements workspace) := linked_placeAll _ 1

theorem eq_of_handle_eq {q : Placement} (hp : p ∈ placements workspace)
    (hq : q ∈ placements workspace) (h : p.handle = q.handle) : p = q := by
  have hnodup : ((placements workspace).map (·.handle)).Nodup := by
    unfold placements
    rw [map_handle_placeAll]
    exact nodup_range'
  exact inj_on_of_nodup_map hnodup hp hq h

theorem Loaded.parent_eq_none_iff {block : Placement → Node} (h : Loaded (placements workspace) g block)
    (hp : p ∈ placements workspace) :
    (block p).parent = none ↔ p.parent = none ∨ p.handle ∈ displaced (placements workspace) := by
  have hroot := h.isRoot_iff p.handle
  rw [IsRoot, parent?_of_get? (h.get? p hp), Option.some_inj] at hroot
  rw [hroot]
  refine or_congr_left ⟨?_, fun htop => ⟨p, hp, htop, rfl⟩⟩
  rintro ⟨q, hq, htop, hhandle⟩
  rwa [eq_of_handle_eq hq hp hhandle] at htop

/-! ## Documents without two inputs for a socket -/

theorem Placement.eq_node {spec : BlockSpec} (hc : n.Conforms spec) (hbare : n.bare = p.node.bare)
    (hparent : n.parent = p.parent) (hat : ∀ k, n.at? k = p.at? k) : n = p.node := by
  have hplace : ∀ {k}, k ≠ nextPosition → n.at? k = p.inputs.get? k := fun hk => (hat _).trans (if_neg hk)
  have hvalues : n.valueSlots = p.node.valueSlots := by
    have hmap : n.bare.valueSlots = p.node.bare.valueSlots := by rw [hbare]
    calc n.valueSlots = n.bare.valueSlots.map fun e => (e.1, { e.2 with target := p.inputs.get? e.1 }) := by
          unfold Node.bare
          rw [map_map]
          refine (map_id _).symm.trans (map_congr_left fun e he => ?_)
          have hget := (Table.get?_eq_some_iff hc.nodup_valueSlots).mpr he
          have hne := hc.ne_nextPosition hget
          have htarget : p.inputs.get? e.1 = e.2.target := by rw [← hplace hne, n.at?_of_ne hne, hget]
          simp only [Function.comp_apply, htarget, id]
      _ = p.node.valueSlots := by
          rw [hmap]
          unfold Node.bare Placement.node
          simp only [map_map]
          rfl
  have hstatements : n.statementSlots = p.node.statementSlots := by
    have hmap : n.bare.statementSlots = p.node.bare.statementSlots := by rw [hbare]
    calc n.statementSlots = n.bare.statementSlots.map fun e => (e.1, p.inputs.get? e.1) := by
          unfold Node.bare
          rw [map_map]
          refine (map_id _).symm.trans (map_congr_left fun e he => ?_)
          have hget := (Table.get?_eq_some_iff hc.nodup_statementSlots).mpr he
          obtain ⟨hne, hvalue⟩ :=
            ChainPosition.slot_of_isOf hc (Table.contains_iff.mpr (Table.mem_names_of_get? hget))
          have htarget : p.inputs.get? e.1 = e.2 := by
            rw [← hplace hne, n.at?_of_ne hne, hvalue, hget]
            rfl
          simp only [Function.comp_apply, htarget, id]
      _ = p.node.statementSlots := by
          rw [hmap]
          unfold Node.bare Placement.node
          simp only [map_map]
          rfl
  have hnext : n.next = p.node.next := by
    rw [← n.at?_nextPosition, hat]
    exact if_pos rfl
  calc n = { n.bare with
        valueSlots := n.valueSlots, statementSlots := n.statementSlots, next := n.next, parent := n.parent } := rfl
    _ = { p.node.bare with
        valueSlots := p.node.valueSlots, statementSlots := p.node.statementSlots, next := p.node.next
        parent := p.parent } := by rw [hbare, hvalues, hstatements, hnext, hparent]
    _ = p.node := rfl

/-- **The graph of a workspace is what the workspace describes**, if no block has two inputs that stand
for the same socket. There is one block for each entry that counts, with the handles in order from one
on; its fields are the defaults with what the entry states over them, and its links are those of the
document. The blocks that stand on their own are those of the entries at the top, in order. -/
theorem mirrored_of_toGraph {workspace : Json} {g : Graph} (hload : toGraph workspace = .ok g)
    (hdistinct : Distinct (placements workspace)) :
    let tops := (placements workspace).filter (·.parent.isNone)
    g.nodes = (placements workspace).map Placement.node
    ∧ g.nodes.map (·.handle) = List.range' 1 g.nodes.length
    ∧ g.topBlocks = tops.map Placement.node ∧ topEntries workspace = .ok (tops.map (·.entry)) := by
  obtain ⟨entries, -, htop, hps, -⟩ := exists_of_toGraph hload
  obtain ⟨block, hloaded⟩ := exists_loaded hload
  have hnone : displaced (placements workspace) = [] :=
    displaced_eq_nil_iff.mpr fun p hp => (hdistinct p hp).filter _
  have hblock : ∀ p ∈ placements workspace, block p = p.node := by
    intro p hp
    obtain ⟨-, spec, hc⟩ := hloaded.forest.sound (hloaded.get? p hp)
    refine Placement.eq_node hc (hloaded.bare p hp) ?_ (hloaded.at? hdistinct p hp)
    cases hparent : (block p).parent with
    | none => simpa [hnone, eq_comm] using (hloaded.parent_eq_none_iff hp).mp hparent
    | some place =>
      -- the place belongs to a placement, which says that this one is there
      obtain ⟨m, hm, hat, -⟩ := hloaded.forest.exists_owner (hloaded.get? p hp) hparent
      have hmem := hloaded.forest.mem_nodes_iff_get?.mpr (hloaded.forest.handle_eq hm ▸ hm)
      rw [hloaded.nodes_eq] at hmem
      obtain ⟨q, hq, rfl⟩ := List.mem_map.mp hmem
      rw [hloaded.at? hdistinct q hq] at hat
      obtain ⟨-, p', hp', hhandle, hplace⟩ :=
        linked_placements workspace q hq _ (Placement.mem_links_of_at? hat)
      have howner : q.handle = place.owner :=
        (hloaded.forest.handle_eq (hloaded.get? q hq)).symm.trans (hloaded.forest.handle_eq hm)
      rw [← eq_of_handle_eq hp' hp hhandle, hplace, howner]
  have hnodes : g.nodes = (placements workspace).map Placement.node :=
    hloaded.nodes_eq.trans (List.map_congr_left hblock)
  refine ⟨hnodes, ?_, ?_, ?_⟩
  · rw [hnodes, List.map_map, List.length_map, hps]
    exact map_handle_placeAll entries 1
  · unfold Graph.topBlocks
    rw [hnodes, List.filter_map]
    rfl
  · rw [hps, map_entry_filter_placeAll, htop]

/-- A block in the way of a shadow, a chain inside of a task and what comes after a value, which does not
count. -/
theorem mirrored_of_toGraph_nested :
    let number := Json.object [("type", .text "nqc_numero"), ("fields", .object [("NUM", .text "4")]),
      ("next", .object [("block", .object [("type", .text "motor_off")])])]
    let start := Json.object [("type", .text "nqc_executar_tarefa"),
      ("fields", .object [("NOME", .text " blink ")])]
    let wait := Json.object [("type", .text "nqc_espera_segundos"),
      ("inputs", .object [("SECONDS", .object
        [("shadow", .object [("type", .text "number")]), ("block", number)])]),
      ("next", .object [("block", start)])]
    let main := Json.object [("type", .text "nqc_tarefa_principal"),
      ("inputs", .object [("STATEMENTS", .object [("block", wait)])])]
    let off := Json.object [("type", .text "motor_off")]
    let workspace := Json.object [("blocks", .object [("blocks", .list [main, off])])]
    ∃ g, toGraph workspace = .ok g ∧ Distinct (placements workspace)
      ∧ (placements workspace).map (fun p => (p.handle, p.parent))
        = [(1, none), (2, some ⟨1, "STATEMENTS"⟩), (3, some ⟨2, "SECONDS"⟩), (4, some ⟨2, nextPosition⟩),
          (5, none)]
      ∧ g.nodes = (placements workspace).map Placement.node
      ∧ g.nodes.map (·.handle) = List.range' 1 g.nodes.length
      ∧ topEntries workspace = .ok [main, off] := by
  intro number start wait main off workspace
  have hloads : (toGraph workspace).toOption.isSome = true := by decide +kernel
  have hdistinct : ∀ p ∈ placements workspace, p.inputs.names.Nodup := by decide +kernel
  cases hload : toGraph workspace with
  | error cause =>
    rw [hload] at hloads
    cases hloads
  | ok g =>
    obtain ⟨hnodes, hhandles, -, -⟩ := mirrored_of_toGraph hload hdistinct
    exact ⟨g, rfl, hdistinct, by decide +kernel, hnodes, hhandles, rfl⟩

/-! ## The blocks at the top -/

theorem length_filter_or {α : Type} {l : List α} {a b : α → Bool} (h : ∀ x ∈ l, a x = true → b x = false) :
    (l.filter fun x => a x || b x).length = (l.filter a).length + (l.filter b).length := by
  rw [length_eq_length_filter_add a, filter_filter, filter_filter]
  congr 2
  · exact filter_congr fun x _ => by cases a x <;> simp
  · refine filter_congr fun x hx => ?_
    cases ha : a x with
    | false => simp
    | true => simp [h x hx ha]

section Tops

theorem not_displaced_of_top (hp : p ∈ placements workspace) (htop : p.parent = none) :
    p.handle ∉ displaced (placements workspace) := by
  intro hmem
  obtain ⟨-, -, -, q, hq, hhandle, hparent⟩ := (linked_placements workspace).of_mem_displaced hmem
  rw [eq_of_handle_eq hq hp hhandle] at hparent
  exact hparent htop

theorem map_handle_topBlocks (hload : toGraph workspace = .ok g) :
    g.topBlocks.map (·.handle) = ((placements workspace).filter fun p =>
      p.parent.isNone || (displaced (placements workspace)).contains p.handle).map (·.handle) := by
  obtain ⟨block, hloaded⟩ := exists_loaded hload
  have hfilter : ∀ p ∈ placements workspace, (block p).parent.isNone
      = (p.parent.isNone || (displaced (placements workspace)).contains p.handle) := by
    intro p hp
    rw [Bool.eq_iff_iff, Bool.or_eq_true, Option.isNone_iff_eq_none, Option.isNone_iff_eq_none,
      contains_iff_mem, hloaded.parent_eq_none_iff hp]
  unfold Graph.topBlocks
  rw [hloaded.nodes_eq, filter_map, map_map]
  refine (congrArg _ (filter_congr hfilter)).trans ?_
  exact map_congr_left fun p hp => hloaded.forest.handle_eq (hloaded.get? p (mem_filter.mp hp).1)

end Tops

/-- **The blocks at the top of a loaded program**, in order, are those of the entries at the top of the
workspace and those that were displaced: the values that another input of the same block, for the same
socket, took the place of. So there are as many as there are entries at the top exactly if no block has two
inputs that stand for the same socket for values. -/
theorem topBlocks_of_toGraph {workspace : Json} {g : Graph} (hload : toGraph workspace = .ok g) :
    let ps := placements workspace
    ∃ entries, topEntries workspace = .ok entries
      ∧ g.topBlocks.map (·.handle)
        = (ps.filter fun p => p.parent.isNone || (displaced ps).contains p.handle).map (·.handle)
      ∧ g.topBlocks.length
        = entries.length + (ps.filter fun p => (displaced ps).contains p.handle).length
      ∧ (g.topBlocks.length = entries.length
        ↔ ∀ p ∈ ps, (p.inputs.names.filter (· ∈ valueSockets p.entry)).Nodup) := by
  intro ps
  obtain ⟨entries, -, htop, hps, -⟩ := exists_of_toGraph hload
  have hhandles := map_handle_topBlocks hload
  have hentries : (ps.filter (·.parent.isNone)).length = entries.length := by
    have hmap := map_entry_filter_placeAll entries 1
    rw [← hps] at hmap
    rw [← hmap, List.length_map]
  have hlength : g.topBlocks.length
      = entries.length + (ps.filter fun p => (displaced ps).contains p.handle).length := by
    have hor := length_filter_or (l := ps) (a := (·.parent.isNone))
      (b := fun p => (displaced ps).contains p.handle) fun p hp hparent => by
        rw [← Bool.not_eq_true, List.contains_iff_mem]
        exact not_displaced_of_top hp (Option.isNone_iff_eq_none.mp hparent)
    have hcount := congrArg List.length hhandles
    rw [List.length_map, List.length_map] at hcount
    rw [hcount, hor, hentries]
  refine ⟨entries, htop, hhandles, hlength, ?_⟩
  rw [← displaced_eq_nil_iff, hlength, Nat.add_eq_left, List.length_eq_zero_iff, List.filter_eq_nil_iff]
  constructor
  · intro hnone
    refine List.eq_nil_iff_forall_not_mem.mpr fun x hx => ?_
    obtain ⟨-, -, -, q, hq, rfl, -⟩ := (linked_placements workspace).of_mem_displaced hx
    exact hnone q hq (List.contains_iff_mem.mpr hx)
  · intro hnil p _
    rw [hnil]
    exact Bool.false_ne_true

def doubledConditional : { workspace : Json // (toGraph workspace).toOption.isSome = true } :=
  let off := Json.object [("block", .object [("type", .text "motor_off")])]
  let touch := Json.object [("block", .object [("type", .text "touch_value")])]
  let truth := Json.object [("block", .object [("type", .text "boolean")])]
  let conditional := Json.object [("type", .text "nqc_se_faca"), ("inputs", .object
    [("DO", off), ("CONDICAO", truth), ("IF0", touch), ("DO0", off)])]
  ⟨Json.object [("blocks", .object [("blocks",
    .list [conditional, .object [("type", .text "main_task")]])])], by decide +kernel⟩

/-- Two inputs for the body of a conditional, which follow each other, two for its condition, one of which is
displaced, and a further entry at the top. -/
theorem topBlocks_of_toGraph_conditional :
    let off := Json.object [("block", .object [("type", .text "motor_off")])]
    let touch := Json.object [("block", .object [("type", .text "touch_value")])]
    let truth := Json.object [("block", .object [("type", .text "boolean")])]
    let conditional := Json.object [("type", .text "nqc_se_faca"), ("inputs", .object
      [("DO", off), ("CONDICAO", truth), ("IF0", touch), ("DO0", off)])]
    let workspace := Json.object [("blocks", .object [("blocks",
      .list [conditional, .object [("type", .text "main_task")]])])]
    ∃ g, toGraph workspace = .ok g ∧ (topEntries workspace).toOption.map List.length = some 2
      ∧ g.topBlocks.map (·.handle) = [1, 3, 6] ∧ displaced (placements workspace) = [3] := by
  intro off touch truth conditional workspace
  have hloads : (toGraph workspace).toOption.isSome = true := doubledConditional.2
  cases hload : toGraph workspace with
  | error cause =>
    rw [hload] at hloads
    cases hloads
  | ok g =>
    obtain ⟨entries, -, hhandles, -⟩ := topBlocks_of_toGraph hload
    refine ⟨g, rfl, rfl, hhandles.trans ?_, ?_⟩ <;> decide +kernel

/-- A block may be at the top that is nested in the workspace: the first of two conditions of a block that
waits. There is one entry at the top of the workspace, and the program has two blocks there. -/
theorem topBlocks_two_conditions :
    let touch := Json.object [("block", .object [("type", .text "touch_value")])]
    let truth := Json.object [("block", .object [("type", .text "boolean")])]
    let wait := Json.object [("type", .text "nqc_espera_ate_que"),
      ("inputs", .object [("CONDICAO", touch), ("CONDITION", truth)])]
    let workspace := Json.object [("blocks", .object [("blocks", .list [wait])])]
    topEntries workspace = .ok [wait]
      ∧ (toGraph workspace).toOption.map (fun g => g.topBlocks.map (·.handle)) = some [1, 2] := by
  refine ⟨rfl, ?_⟩
  decide +kernel

end Workspace

end NqcBlocks
