import NqcBlocks.Proofs.Graph.Views

/-!
# Graphs that are forests

The links of a graph are stored twice: a block names the place it is plugged into, and the place names
the block. `Graph.parent?` and `Graph.at?` are the two sides, and a graph is a **forest** if they agree
(`linked`), every link is between blocks that fit (`typed`), and going outwards from any block comes to
an end (`rooted`).
-/

namespace NqcBlocks

open List Option Node

variable {m n n' : Node} {h x : Handle} {g g' : Graph} {p : Place} {l : List Handle} {k : String}

namespace Graph

/-! ## The two sides of a link -/

def parent? (g : Graph) (h : Handle) : Option (Option Place) := (g.get? h).map (·.parent)

def at? (g : Graph) (p : Place) : Option Handle := (g.get? p.owner).bind (·.at? p.connection)

def Takes (g : Graph) (p : Place) (h : Handle) : Prop :=
  ∃ m n, g.get? p.owner = some m ∧ g.get? h = some n ∧ m.Takes p.connection n

/-- **The way outwards from a block**: the block, the block it is plugged into, and so on. -/
inductive Path (g : Graph) : Handle → List Handle → Prop
  | top {h : Handle} : g.parent? h = some none → Path g h [h]
  | up {h : Handle} {p : Place} {l : List Handle} :
      g.parent? h = some (some p) → Path g p.owner l → Path g h (h :: l)

/-- **A graph is a forest** over the built-in kinds. -/
structure Forest (g : Graph) : Prop where
  builtin : g.catalog = .builtin
  sound : ∀ {h n}, g.get? h = some n → n.handle = h ∧ ∃ spec, n.Conforms spec
  linked : ∀ {h p}, g.parent? h = some (some p) ↔ g.at? p = some h
  typed : ∀ {p h}, g.at? p = some h → g.Takes p h
  rooted : ∀ {h n}, g.get? h = some n → ∃ l, g.Path h l

theorem parent?_of_get? (hn : g.get? h = some n) : g.parent? h = some n.parent := by
  unfold parent?
  rw [hn]
  rfl

theorem at?_of_get? (hn : g.get? p.owner = some n) : g.at? p = n.at? p.connection := by
  unfold at?
  rw [hn]
  rfl

theorem exists_get?_of_parent? {p : Option Place} (hp : g.parent? h = some p) :
    ∃ n, g.get? h = some n ∧ n.parent = p :=
  map_eq_some_iff.mp hp

/-! ## Paths -/

namespace Path

theorem eq_cons (hl : g.Path h l) : ∃ l', l = h :: l' := by
  cases hl with
  | top _ => exact ⟨[], rfl⟩
  | up _ _ => exact ⟨_, rfl⟩

theorem mem (hl : g.Path h l) : h ∈ l := by
  obtain ⟨l', rfl⟩ := hl.eq_cons
  exact mem_cons_self

theorem unique (hl : g.Path h l) {l' : List Handle} (hl' : g.Path h l') : l = l' := by
  induction hl generalizing l' with
  | top hp =>
    cases hl' with
    | top _ => rfl
    | up hp' _ => rw [hp] at hp'; cases hp'
  | up hp _ ih =>
    cases hl' with
    | top hp' => rw [hp] at hp'; cases hp'
    | up hp' hl' =>
      rw [hp] at hp'
      cases hp'
      rw [ih hl']

theorem exists_get? (hl : g.Path h l) (hx : x ∈ l) : ∃ n, g.get? x = some n := by
  induction hl with
  | top hp =>
    rw [mem_singleton] at hx
    obtain ⟨n, hn, -⟩ := exists_get?_of_parent? hp
    exact ⟨n, hx ▸ hn⟩
  | up hp _ ih =>
    rcases mem_cons.mp hx with rfl | hx
    · obtain ⟨n, hn, -⟩ := exists_get?_of_parent? hp
      exact ⟨n, hn⟩
    · exact ih hx

theorem exists_suffix (hl : g.Path h l) (hx : x ∈ l) : ∃ l₁ l₂, l = l₁ ++ l₂ ∧ g.Path x l₂ := by
  induction hl with
  | top hp =>
    rw [mem_singleton] at hx
    subst hx
    exact ⟨[], _, rfl, .top hp⟩
  | up hp hl ih =>
    rcases mem_cons.mp hx with rfl | hx
    · exact ⟨[], _, rfl, .up hp hl⟩
    · obtain ⟨l₁, l₂, rfl, h₂⟩ := ih hx
      exact ⟨_ :: l₁, l₂, rfl, h₂⟩

theorem nodup (hl : g.Path h l) : l.Nodup := by
  induction hl with
  | top _ => exact nodup_singleton _
  | @up h p l hp hl ih =>
    refine nodup_cons.mpr ⟨fun hx => ?_, ih⟩
    -- the path of a block on its own way outwards would be a proper part of itself
    obtain ⟨l₁, l₂, hsplit, h₂⟩ := hl.exists_suffix hx
    have hlen := congrArg length ((Path.up hp hl).unique h₂)
    rw [hsplit, length_cons, length_append] at hlen
    omega

theorem length_le (hl : g.Path h l) : l.length ≤ g.cells.size := by
  have hsub : l ⊆ (List.range g.cells.size).map (· + 1) := by
    intro x hx
    obtain ⟨n, hn⟩ := hl.exists_get? hx
    have hlt := lt_nextHandle_of_get? hn
    cases x with
    | zero => cases hn
    | succ i =>
      exact List.mem_map.mpr ⟨i, List.mem_range.mpr (Nat.lt_of_succ_lt_succ hlt.2), rfl⟩
  have hle := hl.nodup.length_le_of_subset hsub
  rwa [length_map, length_range] at hle

theorem congr (hl : g.Path h l) (hg : ∀ x ∈ l, g'.parent? x = g.parent? x) : g'.Path h l := by
  induction hl with
  | top hp => exact .top ((hg _ mem_cons_self).trans hp)
  | up hp _ ih =>
    exact .up ((hg _ mem_cons_self).trans hp) (ih fun x hx => hg x (mem_cons_of_mem _ hx))

theorem eq_append_of_top (hl : g.Path h l) (hx : x ∈ l) (hp : g.parent? x = some none) : ∃ l₁, l = l₁ ++ [x] := by
  obtain ⟨l₁, l₂, rfl, h₂⟩ := hl.exists_suffix hx
  exact ⟨l₁, by rw [h₂.unique (.top hp)]⟩

theorem notMem_of_top {l₁ l₂ : List Handle} (hl : g.Path h (l₁ ++ l₂)) (hne : l₂ ≠ [])
    (hp : g.parent? x = some none) (hx : x ∉ l₂) : x ∉ l₁ ++ l₂ := by
  intro hmem
  obtain ⟨l, hsplit⟩ := hl.eq_append_of_top hmem hp
  have hlast := congrArg getLast? hsplit
  rw [getLast?_append_of_ne_nil _ hne, getLast?_concat] at hlast
  exact hx (mem_of_getLast? hlast)

end Path

namespace Forest

theorem handle_eq (hg : g.Forest) (hn : g.get? h = some n) : n.handle = h := (hg.sound hn).1

theorem at?_of_parent (hg : g.Forest) (hn : g.get? h = some n) (hp : n.parent = some p) : g.at? p = some h :=
  hg.linked.mp (by rw [parent?_of_get? hn, hp])

theorem parent_of_at? (hg : g.Forest) (hp : g.at? p = some h) (hn : g.get? h = some n) : n.parent = some p := by
  have hparent := hg.linked.mpr hp
  rw [parent?_of_get? hn] at hparent
  exact Option.some.inj hparent

theorem exists_owner (hg : g.Forest) (hn : g.get? h = some n) (hp : n.parent = some p) :
    ∃ m, g.get? p.owner = some m ∧ m.at? p.connection = some h ∧ m.Takes p.connection n := by
  have ha := hg.at?_of_parent hn hp
  obtain ⟨m, n', hm, hn', ht⟩ := hg.typed ha
  rw [hn] at hn'
  cases hn'
  exact ⟨m, hm, by rw [← at?_of_get? hm]; exact ha, ht⟩

theorem exists_child (hg : g.Forest) {c : Handle} (hn : g.get? h = some n) (hc : n.at? k = some c) :
    ∃ m, g.get? c = some m ∧ m.parent = some ⟨h, k⟩ ∧ n.Takes k m := by
  have ha : g.at? ⟨h, k⟩ = some c := (at?_of_get? hn).trans hc
  obtain ⟨n', m, hn', hm, ht⟩ := hg.typed ha
  dsimp only at hn' ht
  rw [hn] at hn'
  cases hn'
  exact ⟨m, hm, hg.parent_of_at? ha hm, ht⟩

theorem owner_ne (hg : g.Forest) (hn : g.get? h = some n) (hp : n.parent = some p) : p.owner ≠ h := by
  intro e
  obtain ⟨l, hl⟩ := hg.rooted hn
  have hpar : g.parent? h = some (some p) := by rw [parent?_of_get? hn, hp]
  cases hl with
  | top hp' => rw [hpar] at hp'; cases hp'
  | up hp' hl' =>
    rw [hpar] at hp'
    cases hp'
    rw [e] at hl'
    exact (nodup_cons.mp (Path.up hpar (e ▸ hl')).nodup).1 hl'.mem

end Forest

end Graph

/-! ## Changes that keep the blocks

An edit of links changes nothing else about a block. `Node.bare` is the block without its links, and
two graphs are `Alike` if they have the same bare blocks. What a place takes is then the same in
both. -/

def Node.bare (n : Node) : Node :=
  { n with
    valueSlots := n.valueSlots.map fun e => (e.1, { e.2 with target := none })
    statementSlots := n.statementSlots.map fun e => (e.1, none)
    next := none
    parent := none }

def Node.content (n : Node) : Node := { n.bare with mutation := [] }

def Node.released (m : Node) : Option Place → Node
  | none => m
  | some p => if p.owner = m.handle then m.unplug p.connection else m

namespace Node

theorem bare_plugValue (n : Node) (k : String) (t : Option Handle) : (n.plugValue k t).bare = n.bare := by
  unfold plugValue bare
  dsimp only
  rw [List.map_map]
  refine congrArg (fun v => ({ n.bare with valueSlots := v } : Node)) (map_congr_left fun e _ => ?_)
  dsimp only [Function.comp_apply]
  split <;> rfl

theorem bare_plugStatement (n : Node) (k : String) (t : Option Handle) : (n.plugStatement k t).bare = n.bare := by
  unfold plugStatement bare
  dsimp only
  rw [List.map_map]
  rfl

theorem bare_put (n : Node) (k : String) (t : Option Handle) : (n.put k t).bare = n.bare := by
  unfold put
  split
  · rfl
  · split
    · exact n.bare_plugValue k t
    · exact n.bare_plugStatement k t

theorem released_frame (n : Node) (p : Option Place) :
    (n.released p).bare = n.bare ∧ (n.released p).parent = n.parent := by
  cases p with
  | none => exact ⟨rfl, rfl⟩
  | some p =>
    rw [released]
    split
    · exact ⟨n.bare_put p.connection none, n.put_parent p.connection none⟩
    · exact ⟨rfl, rfl⟩

theorem names_valueSlots_bare (n : Node) : n.bare.valueSlots.names = n.valueSlots.names :=
  Table.names_mapValues (fun _ (s : ValueSlot) => ({ s with target := none } : ValueSlot)) n.valueSlots

theorem names_statementSlots_bare (n : Node) : n.bare.statementSlots.names = n.statementSlots.names :=
  Table.names_mapValues (fun _ _ => none) n.statementSlots

theorem get?_valueSlots_bare (n : Node) (k : String) : n.bare.valueSlots.get? k
    = (n.valueSlots.get? k).map fun s => { s with target := none } :=
  Table.get?_mapValues (fun _ (s : ValueSlot) => ({ s with target := none } : ValueSlot)) k n.valueSlots

theorem contains_statementSlots_bare (n : Node) (k : String) :
    n.bare.statementSlots.contains k = n.statementSlots.contains k := by
  rw [Bool.eq_iff_iff, Table.contains_iff, Table.contains_iff, n.names_statementSlots_bare]

theorem conforms_bare {spec : BlockSpec} : n.bare.Conforms spec ↔ n.Conforms spec := by
  have hslots : (n.bare.valueSlots.map fun e => (⟨e.1, e.2.check, e.2.default⟩ : SlotSpec))
      = n.valueSlots.map fun e => ⟨e.1, e.2.check, e.2.default⟩ := by
    unfold bare
    rw [List.map_map]
    rfl
  have hnames := n.names_statementSlots_bare
  constructor
  · rintro ⟨hk, hs, hf, hh⟩
    exact ⟨hk, by rw [hslots, hnames] at hs; exact hs, hf, hh⟩
  · rintro ⟨hk, hs, hf, hh⟩
    exact ⟨hk, by rw [hslots, hnames]; exact hs, hf, hh⟩

theorem socket?_bare (n : Node) (k : String) : n.bare.socket? k = n.socket? k := by
  unfold socket?
  rw [n.contains_statementSlots_bare, n.get?_valueSlots_bare]
  split
  · rfl
  · cases n.valueSlots.get? k <;> rfl

theorem socket?_of_bare (hn : n'.bare = n.bare) (k : String) : n'.socket? k = n.socket? k := by
  rw [← socket?_bare, hn, socket?_bare]

theorem takes_congr {m' : Node} (hn : n'.socket? k = n.socket? k) (hm : m'.kind = m.kind) :
    n'.Takes k m' ↔ n.Takes k m := by
  have hfits : ∀ s : Socket, s.fits m' ↔ s.fits m := by
    intro s
    cases s <;> simp only [Socket.fits, isValue, isStatement, output, hm]
  unfold Takes
  simp only [hn, hfits]

theorem takes_congr_bare {m' : Node} (hn : n'.bare = n.bare) (hm : m'.bare = m.bare) :
    n'.Takes k m' ↔ n.Takes k m := by
  have hkind : m'.bare.kind = m.bare.kind := by rw [hm]
  exact takes_congr (socket?_of_bare hn k) hkind

end Node

namespace Graph

structure Alike (g g' : Graph) : Prop where
  catalog : g'.catalog = g.catalog
  next : g'.nextHandle = g.nextHandle
  bare : ∀ h, (g'.get? h).map Node.bare = (g.get? h).map Node.bare

namespace Alike

theorem refl (g : Graph) : g.Alike g := ⟨rfl, rfl, fun _ => rfl⟩

theorem symm (ha : g.Alike g') : g'.Alike g :=
  ⟨ha.catalog.symm, ha.next.symm, fun h => (ha.bare h).symm⟩

theorem trans {g'' : Graph} (ha : g.Alike g') (ha' : g'.Alike g'') : g.Alike g'' :=
  ⟨ha'.catalog.trans ha.catalog, ha'.next.trans ha.next, fun h => (ha'.bare h).trans (ha.bare h)⟩

theorem exists_get? (ha : g.Alike g') (hn : g.get? h = some n) : ∃ n', g'.get? h = some n' ∧ n'.bare = n.bare := by
  have hb := ha.bare h
  rw [hn, map_some] at hb
  exact map_eq_some_iff.mp hb

theorem get?_eq_none (ha : g.Alike g') (hn : g.get? h = none) : g'.get? h = none := by
  have hb := ha.bare h
  rw [hn, map_none] at hb
  exact map_eq_none_iff.mp hb

theorem takes (ha : g.Alike g') (ht : g.Takes p h) : g'.Takes p h := by
  obtain ⟨m, n, hm, hn, ht⟩ := ht
  obtain ⟨m', hm', hmm⟩ := ha.exists_get? hm
  obtain ⟨n', hn', hnn⟩ := ha.exists_get? hn
  exact ⟨m', n', hm', hn', (takes_congr_bare hmm hnn).mpr ht⟩

theorem sound (ha : g.Alike g') (hg : g.Forest) (hn' : g'.get? h = some n') :
    n'.handle = h ∧ ∃ spec, n'.Conforms spec := by
  obtain ⟨n, hn, hnn⟩ := ha.symm.exists_get? hn'
  obtain ⟨hh, spec, hc⟩ := hg.sound hn
  refine ⟨(congrArg handle hnn).symm.trans hh, spec, ?_⟩
  rw [← conforms_bare, ← hnn, conforms_bare]
  exact hc

theorem forest (ha : g.Alike g') (hg : g.Forest) (hlinked : ∀ {h p}, g'.parent? h = some (some p) ↔ g'.at? p = some h)
    (htyped : ∀ {p h}, g'.at? p = some h → g.at? p = some h ∨ g.Takes p h)
    (hrooted : ∀ {h n}, g.get? h = some n → ∃ l, g'.Path h l) : g'.Forest where
  builtin := ha.catalog.trans hg.builtin
  sound := fun hn' => ha.sound hg hn'
  linked := hlinked
  typed := by
    intro p h hp
    refine ha.takes ?_
    rcases htyped hp with hp | hp
    · exact hg.typed hp
    · exact hp
  rooted := by
    intro h n' hn'
    obtain ⟨n, hn, -⟩ := ha.symm.exists_get? hn'
    exact hrooted hn

end Alike

/-! ## The primitive change of links -/

def relink (g : Graph) (p : Place) (target : Option Handle) (child : Handle)
    (parent : Option Place) : Graph :=
  (g.modify p.owner (·.put p.connection target)).modify child fun n => { n with parent }

section Modify

variable {f : Node → Node}

theorem parent?_modify (hf : ∀ n, (f n).parent = n.parent) (x : Handle) : (g.modify h f).parent? x = g.parent? x := by
  unfold parent?
  rw [get?_modify]
  split
  · cases g.get? x with
    | none => rfl
    | some n => exact congrArg some (hf n)
  · rfl

theorem at?_modify (hf : ∀ n k, (f n).at? k = n.at? k) (p : Place) : (g.modify h f).at? p = g.at? p := by
  unfold at?
  rw [get?_modify]
  split
  · cases g.get? p.owner with
    | none => rfl
    | some n => exact hf n _
  · rfl

theorem alike_modify (hf : ∀ n : Node, (f n).bare = n.bare) : g.Alike (g.modify h f) where
  catalog := g.catalog_modify h f
  next := g.nextHandle_modify h f
  bare := by
    intro x
    rw [get?_modify]
    split
    · rw [Option.map_map]
      exact congrArg (fun f => Option.map f _) (funext hf)
    · rfl

end Modify

section Relink

variable (g : Graph) (p : Place) (t : Option Handle) (c : Handle) (q : Option Place)

theorem alike_relink : g.Alike (g.relink p t c q) :=
  (alike_modify fun n => n.bare_put _ _).trans (alike_modify fun _ => rfl)

theorem parent?_relink (x : Handle) :
    (g.relink p t c q).parent? x = if x = c then (g.parent? x).map fun _ => q else g.parent? x := by
  have hput := parent?_modify (g := g) (h := p.owner) (fun n => n.put_parent p.connection t) x
  rw [← hput]
  unfold relink parent?
  rw [get?_modify _ c]
  split
  · rw [Option.map_map, Option.map_map]
    rfl
  · rfl

theorem at?_relink {s : Node.Socket} (hm : g.get? p.owner = some m)
    (hs : m.socket? p.connection = some s) (x : Place) :
    (g.relink p t c q).at? x = if x = p then t else g.at? x := by
  unfold relink
  rw [at?_modify (f := fun n => { n with parent := q }) (fun _ _ => rfl)]
  unfold at?
  rw [get?_modify]
  by_cases ho : x.owner = p.owner
  · rw [if_pos ho, ho, hm]
    show (m.put p.connection t).at? x.connection = _
    rw [m.at?_put p.connection t hs]
    by_cases hk : x.connection = p.connection
    · rw [if_pos hk, if_pos (by cases x; cases p; simp_all)]
    · rw [if_neg hk, if_neg (fun e => hk (congrArg Place.connection e))]
      rfl
  · rw [if_neg ho, if_neg (fun e => ho (congrArg Place.owner e))]

end Relink

/-! ## Taking out and plugging in -/

def attach (g : Graph) (child : Handle) (p : Place) : Graph :=
  g.relink p (some child) child (some p)

theorem alike_attach (g : Graph) (c : Handle) (p : Place) : g.Alike (g.attach c p) :=
  g.alike_relink p (some c) c (some p)

theorem detach_eq_relink (g : Graph) (hp : n.parent = some p) : g.detach n = g.relink p none n.handle none := by
  unfold detach
  rw [hp]
  rfl

theorem detach_of_top (g : Graph) (hp : n.parent = none) : g.detach n = g := by
  unfold detach
  rw [hp]

namespace Forest

theorem exists_socket (hg : g.Forest) (hn : g.get? h = some n) (hp : n.parent = some p) :
    ∃ m s, g.get? p.owner = some m ∧ m.socket? p.connection = some s := by
  obtain ⟨m, hm, -, s, hs, -⟩ := hg.exists_owner hn hp
  exact ⟨m, s, hm, hs⟩

theorem parent?_detach (hg : g.Forest) (hn : g.get? h = some n) (x : Handle) :
    (g.detach n).parent? x = if x = h then some none else g.parent? x := by
  cases hp : n.parent with
  | none =>
    rw [detach_of_top g hp]
    split
    · next e => rw [e, parent?_of_get? hn, hp]
    · rfl
  | some p =>
    rw [detach_eq_relink g hp, parent?_relink, hg.handle_eq hn]
    split
    · next e => rw [e, parent?_of_get? hn]; rfl
    · rfl

theorem at?_detach (hg : g.Forest) (hn : g.get? h = some n) (x : Place) :
    (g.detach n).at? x = if n.parent = some x then none else g.at? x := by
  cases hp : n.parent with
  | none => rw [detach_of_top g hp, if_neg (by simp)]
  | some p =>
    obtain ⟨m, s, hm, hs⟩ := hg.exists_socket hn hp
    rw [detach_eq_relink g hp, at?_relink g p none _ _ hm hs]
    by_cases e : x = p
    · rw [if_pos e, if_pos (by rw [e])]
    · rw [if_neg e, if_neg (fun e' => e (Option.some.inj e').symm)]

theorem alike_detach (g : Graph) (n : Node) : g.Alike (g.detach n) := by
  cases hp : n.parent with
  | none =>
    rw [detach_of_top g hp]
    exact .refl g
  | some p =>
    rw [detach_eq_relink g hp]
    exact g.alike_relink p none _ _

theorem path_detach (hg : g.Forest) (hn : g.get? h = some n) (hl : g.Path x l) :
    (h ∉ l → (g.detach n).Path x l) ∧ (h ∈ l → ∃ l', (g.detach n).Path x l') := by
  have hother : ∀ {y}, y ≠ h → (g.detach n).parent? y = g.parent? y := fun hy => by
    rw [hg.parent?_detach hn, if_neg hy]
  refine ⟨fun hh => hl.congr fun y hy => hother (fun e => hh (e ▸ hy)), fun _ => ?_⟩
  induction hl with
  | @top x hp =>
    by_cases e : x = h
    · exact ⟨_, .top (by rw [hg.parent?_detach hn, if_pos e])⟩
    · exact ⟨_, .top ((hother e).trans hp)⟩
  | @up x p l hp hl ih =>
    by_cases e : x = h
    · exact ⟨_, .top (by rw [hg.parent?_detach hn, if_pos e])⟩
    · have hmem : h ∈ l := by
        rcases mem_cons.mp ‹h ∈ x :: l› with e' | hm
        · exact absurd e'.symm e
        · exact hm
      obtain ⟨l', hl'⟩ := ih hmem
      exact ⟨_, .up ((hother e).trans hp) hl'⟩

theorem detach (hg : g.Forest) (hn : g.get? h = some n) : (g.detach n).Forest := by
  refine (alike_detach g n).forest hg ?_ ?_ ?_
  · intro x p
    rw [hg.parent?_detach hn, hg.at?_detach hn]
    by_cases hx : x = h
    · subst hx
      rw [if_pos rfl]
      refine ⟨fun e => by simp at e, fun e => ?_⟩
      split at e
      · cases e
      · next hne => exact absurd (hg.parent_of_at? e hn) hne
    · rw [if_neg hx, hg.linked]
      by_cases hp : n.parent = some p
      · rw [if_pos hp, hg.at?_of_parent hn hp]
        exact ⟨fun e => absurd (Option.some.inj e).symm hx, fun e => by cases e⟩
      · rw [if_neg hp]
  · intro p x hx
    rw [hg.at?_detach hn] at hx
    split at hx
    · cases hx
    · exact .inl hx
  · intro x m hm
    obtain ⟨l, hl⟩ := hg.rooted hm
    by_cases hh : h ∈ l
    · exact (hg.path_detach hn hl).2 hh
    · exact ⟨l, (hg.path_detach hn hl).1 hh⟩

theorem get?_detach_self (hg : g.Forest) (hn : g.get? h = some n) :
    (g.detach n).get? h = some { n with parent := none } := by
  cases hp : n.parent with
  | none => rw [detach_of_top g hp, hn, ← hp]
  | some p =>
    unfold Graph.detach
    rw [hp]
    dsimp only
    rw [get?_modify, if_pos (hg.handle_eq hn).symm, get?_modify, if_neg (Ne.symm (hg.owner_ne hn hp)), hn, map_some]

theorem get?_detach (hg : g.Forest) (hn : g.get? h = some n) (hx : x ≠ h) :
    (g.detach n).get? x = (g.get? x).map (·.released n.parent) := by
  cases hp : n.parent with
  | none =>
    rw [detach_of_top g hp]
    exact Option.map_id'.symm
  | some p =>
    unfold Graph.detach
    rw [hp]
    dsimp only
    rw [get?_modify, if_neg (hg.handle_eq hn ▸ hx), get?_modify]
    cases hm : g.get? x with
    | none => exact ite_self _
    | some m =>
      rw [map_some, map_some, released, hg.handle_eq hm]
      by_cases ho : x = p.owner
      · rw [if_pos ho, if_pos ho.symm]
      · rw [if_neg ho, if_neg (Ne.symm ho)]

theorem at?_detach_eq_filter (hg : g.Forest) (hn : g.get? h = some n) (p : Place) :
    (g.detach n).at? p = (g.at? p).filter (· ≠ h) := by
  ext x
  rw [filter_eq_some_iff, ← (hg.detach hn).linked, ← hg.linked, hg.parent?_detach hn]
  by_cases hx : x = h <;> simp [hx]

end Forest

section Attach

variable {c : Handle}

theorem parent?_attach (hn : g.get? c = some n) (x : Handle) :
    (g.attach c p).parent? x = if x = c then some (some p) else g.parent? x := by
  unfold attach
  rw [parent?_relink]
  split
  · next e => rw [e, parent?_of_get? hn]; rfl
  · rfl

theorem at?_attach (ht : g.Takes p c) (x : Place) : (g.attach c p).at? x = if x = p then some c else g.at? x := by
  obtain ⟨m, -, hm, -, s, hs, -⟩ := ht
  exact g.at?_relink p (some c) c (some p) hm hs x

theorem Path.attach_of_notMem (hn : g.get? c = some n) (hl : g.Path x l) (hc : c ∉ l) : (g.attach c p).Path x l := by
  refine hl.congr fun y hy => ?_
  have hne : y ≠ c := fun e => hc (e ▸ hy)
  rw [parent?_attach hn, if_neg hne]

theorem Path.attach_of_mem (hn : g.get? c = some n) (htop : n.parent = none) (hl : g.Path p.owner l)
    (hc : c ∉ l) {l' : List Handle} (hl' : g.Path x l') (hc' : c ∈ l') :
    ∃ l₁, (g.attach c p).Path x (l₁ ++ c :: l) := by
  have hup : (g.attach c p).Path c (c :: l) := .up (by rw [parent?_attach hn, if_pos rfl]) (hl.attach_of_notMem hn hc)
  induction hl' with
  | top _ =>
    rw [mem_singleton] at hc'
    subst hc'
    exact ⟨[], hup⟩
  | @up x q l' hq _ ih =>
    by_cases e : x = c
    · subst e
      rw [parent?_of_get? hn, htop] at hq
      cases hq
    · obtain ⟨l₁, h₁⟩ := ih ((mem_cons.mp hc').resolve_left (fun e' => e e'.symm))
      exact ⟨x :: l₁, .up (by rw [parent?_attach hn, if_neg e]; exact hq) h₁⟩

theorem Forest.attach (hg : g.Forest) (hn : g.get? c = some n) (htop : n.parent = none)
    (hempty : g.at? p = none) (ht : g.Takes p c) (hl : g.Path p.owner l) (hc : c ∉ l) :
    (g.attach c p).Forest := by
  refine (g.alike_attach c p).forest hg ?_ ?_ ?_
  · intro x q
    rw [parent?_attach hn, at?_attach ht]
    by_cases hx : x = c
    · subst hx
      rw [if_pos rfl]
      by_cases hq : q = p
      · simp [hq]
      · rw [if_neg hq]
        refine ⟨fun e => absurd (Option.some.inj (Option.some.inj e)).symm hq, fun e => ?_⟩
        cases htop.symm.trans (hg.parent_of_at? e hn)
    · rw [if_neg hx, hg.linked]
      by_cases hq : q = p
      · rw [if_pos hq, hq, hempty]
        exact ⟨nofun, fun e => absurd (Option.some.inj e).symm hx⟩
      · rw [if_neg hq]
  · intro q x hx
    rw [at?_attach ht] at hx
    split at hx
    · next e =>
      cases hx
      exact .inr (e ▸ ht)
    · exact .inl hx
  · intro x m hm
    obtain ⟨l', hl'⟩ := hg.rooted hm
    by_cases hx : c ∈ l'
    · obtain ⟨l₁, h₁⟩ := Path.attach_of_mem hn htop hl hc hl' hx
      exact ⟨_, h₁⟩
    · exact ⟨l', hl'.attach_of_notMem hn hx⟩

end Attach

/-! ## Other changes of a forest -/

theorem Forest.of_links (hg : g.Forest) (hcat : g'.catalog = g.catalog)
    (hsound : ∀ {h n}, g'.get? h = some n → n.handle = h ∧ ∃ spec, n.Conforms spec)
    (htakes : ∀ {p h}, g.Takes p h → g'.Takes p h) (hparent : ∀ h, g'.parent? h = g.parent? h)
    (hat : ∀ p, g'.at? p = g.at? p) : g'.Forest where
  builtin := hcat.trans hg.builtin
  sound := hsound
  linked := by
    intro h p
    rw [hparent, hat]
    exact hg.linked
  typed := by
    intro p h hp
    rw [hat] at hp
    exact htakes (hg.typed hp)
  rooted := by
    intro h n hn
    have hp := parent?_of_get? hn
    rw [hparent] at hp
    obtain ⟨m, hm, -⟩ := exists_get?_of_parent? hp
    obtain ⟨l, hl⟩ := hg.rooted hm
    exact ⟨l, hl.congr fun x _ => hparent x⟩

theorem Alike.forest_of_links (ha : g.Alike g') (hg : g.Forest)
    (hparent : ∀ h, g'.parent? h = g.parent? h) (hat : ∀ p, g'.at? p = g.at? p) : g'.Forest :=
  hg.of_links ha.catalog (fun hn => ha.sound hg hn) (fun ht => ha.takes ht) hparent hat

theorem Forest.modify (hg : g.Forest) (h : Handle) {f : Node → Node}
    (hlinks : ∀ n, (f n).parent = n.parent ∧ ∀ k, (f n).at? k = n.at? k)
    (hkind : ∀ n, (f n).handle = n.handle ∧ (f n).kind = n.kind ∧ ∀ k, (f n).socket? k = n.socket? k)
    (hconforms : ∀ {n spec}, g.get? h = some n → n.Conforms spec → (f n).Conforms spec) :
    (g.modify h f).Forest := by
  have hnode : ∀ {x n}, g.get? x = some n → ∃ n', (g.modify h f).get? x = some n'
      ∧ n'.kind = n.kind ∧ ∀ k, n'.socket? k = n.socket? k := by
    intro x n hn
    rw [get?_modify, hn]
    split
    · exact ⟨f n, rfl, (hkind n).2.1, (hkind n).2.2⟩
    · exact ⟨n, rfl, rfl, fun _ => rfl⟩
  refine hg.of_links (g.catalog_modify h f) ?_ ?_ (parent?_modify fun n => (hlinks n).1)
    (at?_modify fun n => (hlinks n).2)
  · intro x n' hn'
    rw [get?_modify] at hn'
    split at hn'
    · next e =>
      subst e
      obtain ⟨n, hn, rfl⟩ := map_eq_some_iff.mp hn'
      obtain ⟨hh, spec, hc⟩ := hg.sound hn
      exact ⟨(hkind n).1.trans hh, spec, hconforms hn hc⟩
    · exact hg.sound hn'
  · rintro p x ⟨m, n, hm, hn, ht⟩
    obtain ⟨m', hm', -, hms⟩ := hnode hm
    obtain ⟨n', hn', hnk, -⟩ := hnode hn
    exact ⟨m', n', hm', hn', (takes_congr (hms _) hnk).mpr ht⟩

theorem Forest.push (hg : g.Forest) {spec : BlockSpec} (hc : n.Conforms spec)
    (hh : n.handle = g.nextHandle) (hp : n.parent = none) (hat : ∀ k, n.at? k = none) : (g.push n).Forest := by
  have hold : ∀ {h m}, g.get? h = some m → (g.push n).get? h = some m := by
    intro h m hm
    rw [get?_push, if_neg (Nat.ne_of_lt (lt_nextHandle_of_get? hm).2)]
    exact hm
  have hparent : ∀ h, (g.push n).parent? h = if h = g.nextHandle then some none else g.parent? h := by
    intro h
    unfold parent?
    rw [get?_push]
    split
    · exact congrArg some hp
    · rfl
  have hplace : ∀ p, (g.push n).at? p = g.at? p := by
    intro p
    unfold at?
    rw [get?_push]
    split
    · next e =>
      rw [e]
      cases hnext : g.get? g.nextHandle with
      | none => exact hat _
      | some m => exact absurd (lt_nextHandle_of_get? hnext).2 (Nat.lt_irrefl _)
    · rfl
  have hpath : ∀ {h l}, g.Path h l → (g.push n).Path h l := by
    intro h l hl
    refine hl.congr fun x hx => ?_
    obtain ⟨m, hm⟩ := hl.exists_get? hx
    rw [hparent, if_neg (Nat.ne_of_lt (lt_nextHandle_of_get? hm).2)]
  constructor
  · exact hg.builtin
  · intro h m hm
    rw [get?_push] at hm
    split at hm
    · next e =>
      cases hm
      exact ⟨hh.trans e.symm, spec, hc⟩
    · exact hg.sound hm
  · intro h p
    rw [hparent, hplace, ← hg.linked]
    split
    · next e =>
      refine ⟨nofun, fun hlast => ?_⟩
      obtain ⟨m, hm, -⟩ := exists_get?_of_parent? hlast
      exact absurd (e ▸ (lt_nextHandle_of_get? hm).2) (Nat.lt_irrefl _)
    · rfl
  · intro p h hpl
    rw [hplace] at hpl
    obtain ⟨m, m', hm, hm', ht⟩ := hg.typed hpl
    exact ⟨m, m', hold hm, hold hm', ht⟩
  · intro h m hm
    rw [get?_push] at hm
    split at hm
    · next e => exact ⟨_, .top (by rw [hparent, if_pos e])⟩
    · obtain ⟨l, hl⟩ := hg.rooted hm
      exact ⟨l, hpath hl⟩

theorem Forest.delete_of_closed (hg : g.Forest) (gone : Handle → Prop)
    (hcat : g'.catalog = g.catalog) (hgone : ∀ {h}, gone h → g'.get? h = none)
    (hstay : ∀ {h}, ¬ gone h → g'.get? h = g.get? h)
    (hclosed : ∀ {h p}, g.parent? h = some (some p) → (gone h ↔ gone p.owner)) : g'.Forest := by
  have hlive : ∀ {h n}, g'.get? h = some n → ¬ gone h ∧ g.get? h = some n := by
    intro h n hn
    have hng : ¬ gone h := fun hgn => by rw [hgone hgn] at hn; cases hn
    exact ⟨hng, (hstay hng).symm.trans hn⟩
  have hparent : ∀ {h}, ¬ gone h → g'.parent? h = g.parent? h := fun hng => by
    unfold parent?
    rw [hstay hng]
  have hat : ∀ {p}, ¬ gone p.owner → g'.at? p = g.at? p := fun hng => by
    unfold at?
    rw [hstay hng]
  constructor
  · exact hcat.trans hg.builtin
  · intro h n hn
    exact hg.sound (hlive hn).2
  · intro h p
    constructor
    · intro hp
      obtain ⟨n, hn, -⟩ := exists_get?_of_parent? hp
      have hng := (hlive hn).1
      rw [hparent hng] at hp
      rw [hat (fun hpo => hng ((hclosed hp).mpr hpo))]
      exact hg.linked.mp hp
    · intro hp
      have hpo : ¬ gone p.owner := fun hpo => by
        unfold at? at hp
        rw [hgone hpo] at hp
        cases hp
      rw [hat hpo] at hp
      have hp' := hg.linked.mpr hp
      rw [hparent (fun hh => hpo ((hclosed hp').mp hh))]
      exact hp'
  · intro p h hp
    have hpo : ¬ gone p.owner := fun hpo => by
      unfold at? at hp
      rw [hgone hpo] at hp
      cases hp
    rw [hat hpo] at hp
    have hh : ¬ gone h := fun hh => hpo ((hclosed (hg.linked.mpr hp)).mp hh)
    obtain ⟨m, n, hm, hn, ht⟩ := hg.typed hp
    exact ⟨m, n, (hstay hpo).trans hm, (hstay hh).trans hn, ht⟩
  · intro h n hn
    obtain ⟨hng, hn⟩ := hlive hn
    obtain ⟨l, hl⟩ := hg.rooted hn
    -- with a block its whole way outwards stays
    have hall : ∀ {h l}, g.Path h l → ¬ gone h → ∀ x ∈ l, ¬ gone x := by
      intro h l hl
      induction hl with
      | top _ =>
        intro hng x hx
        rw [mem_singleton.mp hx]
        exact hng
      | up hp _ ih =>
        intro hng x hx
        rcases mem_cons.mp hx with rfl | hx
        · exact hng
        · exact ih (fun hpo => hng ((hclosed hp).mpr hpo)) x hx
    exact ⟨l, hl.congr fun x hx => hparent (hall hl hng x hx)⟩

end Graph

end NqcBlocks
