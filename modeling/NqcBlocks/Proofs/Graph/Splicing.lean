import Mathlib
import NqcBlocks.Proofs.Graph.Runs
import NqcBlocks.Proofs.Graph.Tree

/-!
# Splicing chains

Putting a chain of statements at a position loses nothing. The chain that is there afterwards is the
chain that was put there, followed by what was at the position before; if the chain was taken out of
what was there, that part is not in it twice. All that is plugged in elsewhere stays where it is.
-/

namespace NqcBlocks

open List Option

variable {c x : Handle} {target : Option Handle} {n : Node} {l : List Handle}

namespace Graph

/-! ## The handles along a chain -/

def handlesFrom (g : Graph) (target : Option Handle) : List Handle := (g.chainAt target).map (·.handle)

def Sees (g : Graph) (target : Option Handle) : Prop := ∀ h, target = some h → ∃ n, g.get? h = some n

theorem handlesFrom_none (g : Graph) : g.handlesFrom none = [] := by
  unfold handlesFrom chainAt
  rw [Forest.chainWithin_none]
  rfl

namespace Forest

variable {g : Graph}

theorem handlesFrom_some (hg : g.Forest) {h : Handle} (hn : g.get? h = some n) :
    g.handlesFrom (some h) = h :: g.handlesFrom n.next := by
  unfold handlesFrom
  rw [hg.grounded.chainAt_eq hn, map_cons, hg.handle_eq hn]

theorem sees_at? (hg : g.Forest) (p : Place) : g.Sees (g.at? p) := fun _ hh =>
  (exists_get?_of_parent? (hg.linked.mpr hh)).imp fun _ => And.left

theorem chain_induction (hg : g.Forest) {P : Option Handle → Prop} (nil : P none)
    (step : ∀ {h n}, g.get? h = some n → P n.next → P (some h)) (htarget : g.Sees target) : P target := by
  cases target with
  | none => exact nil
  | some h =>
    obtain ⟨n, hn⟩ := htarget h rfl
    have hstart : P (some n.handle) := by
      refine hg.induction_inwards (P := fun n => P (some n.handle)) ?_ hn
      intro h n hn ih
      rw [hg.handle_eq hn]
      refine step hn ?_
      cases hnext : n.next with
      | none => exact nil
      | some c =>
        obtain ⟨m, hm, -⟩ := hg.exists_next hn hnext
        rw [← hg.handle_eq hm]
        exact ih ((n.at?_nextPosition).trans hnext) hm
    rwa [hg.handle_eq hn] at hstart

theorem exists_path_of_mem_handlesFrom (hg : g.Forest) (hl : g.Path c l)
    (hx : x ∈ g.handlesFrom (some c)) : ∃ l₁, g.Path x (l₁ ++ l) := by
  obtain ⟨n, hn⟩ := hl.exists_get? hl.mem
  have hstart : g.Sees (some c) := fun h hh => ⟨n, Option.some.inj hh ▸ hn⟩
  refine hg.chain_induction (P := fun target => ∀ c l, target = some c → g.Path c l →
    x ∈ g.handlesFrom target → ∃ l₁, g.Path x (l₁ ++ l)) (fun c l h => by cases h) ?_ hstart c l rfl hl hx
  rintro c n hn ih c' l ⟨⟩ hl hx
  rw [hg.handlesFrom_some hn] at hx
  rcases mem_cons.mp hx with rfl | hx
  · exact ⟨[], hl⟩
  · cases hnext : n.next with
    | none =>
      rw [hnext, handlesFrom_none] at hx
      cases hx
    | some c' =>
      obtain ⟨m, hm, hp, -⟩ := hg.exists_next hn hnext
      have hup : g.Path c' (c' :: l) := .up (by rw [parent?_of_get? hm, hp]) hl
      obtain ⟨l₁, hl₁⟩ := ih c' _ hnext hup hx
      exact ⟨l₁ ++ [c'], by rwa [append_assoc]⟩

theorem at?_ne_of_mem_handlesFrom (hg : g.Forest) {y : Handle} (hl : g.Path c l)
    (hx : x ∈ g.handlesFrom (some c)) (hy : y ∈ l) (k : String) : g.at? ⟨x, k⟩ ≠ some y := by
  intro hat
  obtain ⟨l₁, hl₁⟩ := hg.exists_path_of_mem_handlesFrom hl hx
  exact hg.notMem_path hat hl₁ (mem_append_right _ hy)

theorem ne_of_mem_handlesFrom (hg : g.Forest) {y : Handle} (hl : g.Path c (c :: l))
    (hx : x ∈ g.handlesFrom (some c)) (hy : y ∈ l) : x ≠ y := by
  rintro rfl
  obtain ⟨l₁, hl₁⟩ := hg.exists_path_of_mem_handlesFrom hl hx
  obtain ⟨l₂, l₃, hsplit, hl₃⟩ := hl.exists_suffix (mem_cons_of_mem c hy)
  -- the path of the block would start inside itself
  have hmem : c ∈ l₃ := by
    rw [hl₃.unique hl₁]
    exact mem_append_right _ mem_cons_self
  cases l₂ with
  | nil =>
    rw [nil_append] at hsplit
    subst hsplit
    obtain rfl : x = c := by
      obtain ⟨l', hl'⟩ := hl₃.eq_cons
      exact (List.cons.inj hl').1.symm
    exact (nodup_cons.mp hl.nodup).1 hy
  | cons _ l₂ =>
    obtain ⟨-, rfl⟩ := List.cons.inj hsplit
    exact (nodup_cons.mp hl.nodup).1 (mem_append_right _ hmem)

theorem at?_lastOf (hg : g.Forest) (hn : g.get? c = some n) :
    g.lastOf c ∈ g.handlesFrom (some c) ∧ g.at? ⟨g.lastOf c, nextPosition⟩ = none := by
  obtain ⟨l, hl⟩ := hg.rooted hn
  obtain ⟨m, hlast, hnext, hm, -⟩ := hg.exists_tail g.reach hn hl (Nat.le_add_right _ _)
  have hlastOf : g.lastOf c = m.handle := by
    unfold lastOf chainAt
    rw [hlast]
    rfl
  rw [hlastOf, at?_of_get? (p := ⟨m.handle, nextPosition⟩) hm, m.at?_nextPosition]
  exact ⟨List.mem_map_of_mem (mem_of_getLast? hlast), hnext⟩

theorem lastOf_eq_of_mem_handlesFrom (hg : g.Forest) (hx : x ∈ g.handlesFrom (some c))
    (hat : g.at? ⟨x, nextPosition⟩ = none) (hc : g.Sees (some c)) : g.lastOf c = x := by
  have hlast : (g.handlesFrom (some c)).getLast? = some x := by
    refine hg.chain_induction (P := fun target => x ∈ g.handlesFrom target →
      (g.handlesFrom target).getLast? = some x) ?_ ?_ hc hx
    · rw [handlesFrom_none]
      intro h
      cases h
    · intro h n hn ih hx
      rw [hg.handlesFrom_some hn] at hx ⊢
      rcases mem_cons.mp hx with rfl | hx
      · rw [at?_of_get? (p := ⟨x, nextPosition⟩) hn, n.at?_nextPosition] at hat
        rw [hat, handlesFrom_none]
        rfl
      · rw [getLast?_cons, ih hx]
        rfl
  unfold lastOf
  rw [← getLast?_map]
  exact congrArg (·.getD c) hlast

/-! ## Cutting and joining -/

theorem handlesFrom_detach (hg : g.Forest) (hn : g.get? c = some n) (htarget : g.Sees target) :
    (g.detach n).handlesFrom (target.filter (· ≠ c)) = (g.handlesFrom target).takeWhile (· ≠ c) := by
  have hg₁ := hg.detach hn
  refine hg.chain_induction (P := fun target => (g.detach n).handlesFrom (target.filter (· ≠ c))
    = (g.handlesFrom target).takeWhile (· ≠ c)) ?_ ?_ htarget
  · rw [filter_none, handlesFrom_none, handlesFrom_none]
    rfl
  · intro h m hm ih
    rw [hg.handlesFrom_some hm]
    by_cases hh : h = c
    · rw [hh, filter_some_neg (by simp), handlesFrom_none, takeWhile_cons_of_neg (by simp)]
    · obtain ⟨m', hm', -⟩ := (alike_detach g n).exists_get? hm
      have hnext : m'.next = m.next.filter (· ≠ c) := by
        have hat := hg.at?_detach_eq_filter hn ⟨h, nextPosition⟩
        rwa [at?_of_get? (p := ⟨h, nextPosition⟩) hm', at?_of_get? (p := ⟨h, nextPosition⟩) hm,
          m'.at?_nextPosition, m.at?_nextPosition] at hat
      rw [filter_some_pos (by simpa using hh), hg₁.handlesFrom_some hm', hnext, ih,
        takeWhile_cons_of_pos (by simpa using hh)]

theorem handlesFrom_eq_append (hg : g.Forest) (c : Handle) (htarget : g.Sees target) :
    g.handlesFrom target = (g.handlesFrom target).takeWhile (· ≠ c)
      ++ if c ∈ g.handlesFrom target then g.handlesFrom (some c) else [] := by
  refine hg.chain_induction (P := fun target => g.handlesFrom target = (g.handlesFrom target).takeWhile (· ≠ c)
      ++ if c ∈ g.handlesFrom target then g.handlesFrom (some c) else []) ?_ ?_ htarget
  · rw [handlesFrom_none]
    rfl
  · intro h n hn ih
    by_cases hh : h = c
    · subst hh
      have hmem : h ∈ g.handlesFrom (some h) := by
        rw [hg.handlesFrom_some hn]
        exact mem_cons_self
      rw [if_pos hmem, hg.handlesFrom_some hn, takeWhile_cons_of_neg (by simp), nil_append]
    · have hmem : c ∈ h :: g.handlesFrom n.next ↔ c ∈ g.handlesFrom n.next := by
        rw [mem_cons]
        exact or_iff_right (Ne.symm hh)
      rw [hg.handlesFrom_some hn, takeWhile_cons_of_pos (by simpa using hh), cons_append]
      simp only [hmem]
      rw [← ih]

theorem handlesFrom_or {g' : Graph} (hg : g.Forest) (hg' : g'.Forest) (ha : g.Alike g')
    {o : Option Handle} (htarget : g.Sees target) (hat : ∀ x ∈ g.handlesFrom target,
      g'.at? ⟨x, nextPosition⟩ = (g.at? ⟨x, nextPosition⟩).or o) :
    g'.handlesFrom (target.or o) = g.handlesFrom target ++ g'.handlesFrom o := by
  refine hg.chain_induction (P := fun target => (∀ x ∈ g.handlesFrom target,
      g'.at? ⟨x, nextPosition⟩ = (g.at? ⟨x, nextPosition⟩).or o) →
    g'.handlesFrom (target.or o) = g.handlesFrom target ++ g'.handlesFrom o) ?_ ?_ htarget hat
  · intro _
    rw [handlesFrom_none, none_or, nil_append]
  · intro h n hn ih hat
    obtain ⟨n', hn', -⟩ := ha.exists_get? hn
    rw [hg.handlesFrom_some hn] at hat ⊢
    have hnext : n'.next = n.next.or o := by
      have hhead := hat h mem_cons_self
      rwa [at?_of_get? (p := ⟨h, nextPosition⟩) hn', at?_of_get? (p := ⟨h, nextPosition⟩) hn,
        n'.at?_nextPosition, n.at?_nextPosition] at hhead
    rw [some_or, hg'.handlesFrom_some hn', hnext, ih fun x hx => hat x (mem_cons_of_mem _ hx), cons_append]

/-! ## Putting a chain at a position -/

section Splice

variable {g' : Graph} {place : Place} {child : Handle} {c : Node}

theorem ne_place_of_mem_handlesFrom (hg : g.Forest) (hc : g.get? child = some c)
    (hl : g.Path place.owner l) (hout : child ∉ l) (hx : x ∈ g.handlesFrom (some child)) :
    (⟨x, nextPosition⟩ : Place) ≠ place := by
  rintro rfl
  obtain ⟨lc, hlc⟩ := hg.rooted hc
  obtain ⟨l₁, hl₁⟩ := hg.exists_path_of_mem_handlesFrom hlc hx
  rw [hl.unique hl₁] at hout
  exact hout (mem_append_right _ hlc.mem)

theorem lastOf_attach (hg : g.Forest) (hc : g.get? child = some c) (ht : g.Takes place child)
    (hl : g.Path place.owner l) (hout : child ∉ l) :
    ((g.detach c).attach child place).lastOf child = g.lastOf child := by
  have ha := alike_detach g c
  obtain ⟨lc, hlc⟩ := hg.rooted hc
  refine lastOf_eq_of_map_chainAt ((ha.trans (alike_attach _ _ _)).map_chainAt hg fun n hn => ?_)
  have hx : n.handle ∈ g.handlesFrom (some child) := List.mem_map_of_mem hn
  rw [at?_attach (ha.takes ht), if_neg (hg.ne_place_of_mem_handlesFrom hc hl hout hx), hg.at?_detach_eq_filter hc]
  have hne := hg.at?_ne_of_mem_handlesFrom hlc hx hlc.mem nextPosition
  cases hat : g.at? ⟨n.handle, nextPosition⟩ with
  | none => rfl
  | some y =>
    rw [hat, Ne, Option.some.injEq] at hne
    exact filter_some_pos (by simpa using hne)

theorem handlesFrom_splice (hg : g.Forest) (hg' : g'.Forest) (ha : g.Alike g')
    (hc : g.get? child = some c) (hl : g.Path place.owner l) (hout : child ∉ l)
    (hparent : ∀ x, g'.parent? x = if x = child then some (some place)
      else if g.at? place = some x then some (some ⟨g.lastOf child, nextPosition⟩)
      else g.parent? x) :
    g'.handlesFrom (some child)
      = g.handlesFrom (some child) ++ (g.handlesFrom (g.at? place)).takeWhile (· ≠ child) := by
  obtain ⟨lc, hlc⟩ := hg.rooted hc
  have hsees : g.Sees (some child) := fun h hh => ⟨c, Option.some.inj hh ▸ hc⟩
  obtain ⟨hlast, hend⟩ := hg.at?_lastOf hc
  have hother : ∀ {y}, (g.at? place).filter (· ≠ child) = some y ↔ y ≠ child ∧ g.at? place = some y := by
    intro y
    rw [filter_eq_some_iff, decide_eq_true_iff, and_comm]
  -- the chain goes on after its last block with what was at the place
  have hjoined : g'.handlesFrom (some child)
      = g.handlesFrom (some child) ++ g'.handlesFrom ((g.at? place).filter (· ≠ child)) := by
    have hjoin := hg.handlesFrom_or hg' ha (o := (g.at? place).filter (· ≠ child)) hsees ?_
    · rwa [some_or] at hjoin
    intro x hx
    have hplace := hg.ne_place_of_mem_handlesFrom hc hl hout hx
    have hback := hg.at?_ne_of_mem_handlesFrom hlc hx hlc.mem nextPosition
    refine ext fun y => ?_
    rw [← hg'.linked, hparent, or_eq_some_iff, hother]
    by_cases hy : y = child
    · rw [if_pos hy, hy]
      simp [hback, Ne.symm hplace]
    · rw [if_neg hy]
      by_cases ho : g.at? place = some y
      · rw [if_pos ho]
        have hne : g.at? ⟨x, nextPosition⟩ ≠ some y := fun h =>
          hplace (by simpa using (hg.linked.mpr h).symm.trans (hg.linked.mpr ho))
        simp only [Option.some.injEq, Place.mk.injEq, and_true, hne, hy, ho, ne_eq, not_false_eq_true,
          and_self, false_or]
        constructor
        · rintro rfl
          exact hend
        · intro hat
          exact hg.lastOf_eq_of_mem_handlesFrom hx hat hsees
      · rw [if_neg ho, hg.linked]
        simp [ho]
  rw [hjoined, ← hg.handlesFrom_detach hc (hg.sees_at? place)]
  refine congrArg _ ?_
  cases hocc : (g.at? place).filter (· ≠ child) with
  | none => rw [handlesFrom_none, handlesFrom_none]
  | some o =>
    obtain ⟨hne, ho⟩ := hother.mp hocc
    have hg₁ := hg.detach hc
    -- in the new graph, the place and the end of the chain are further out than what was at the place
    obtain ⟨lo, hlo⟩ : ∃ lo, g'.Path place.owner lo := by
      obtain ⟨n, hn⟩ := hl.exists_get? hl.mem
      obtain ⟨n', hn', -⟩ := ha.exists_get? hn
      exact hg'.rooted hn'
    have hchild : g'.Path child (child :: lo) := .up (by rw [hparent, if_pos rfl]) hlo
    obtain ⟨l₁, hl₁⟩ : ∃ l₁, g'.Path (g.lastOf child) (l₁ ++ child :: lo) := by
      refine hg'.exists_path_of_mem_handlesFrom hchild ?_
      rw [hjoined]
      exact mem_append_left _ hlast
    have hpath : g'.Path o (o :: (l₁ ++ child :: lo)) :=
      .up (p := ⟨g.lastOf child, nextPosition⟩) (by rw [hparent, if_neg hne, if_pos ho]) hl₁
    have hsees' : g'.Sees (some o) := by
      rintro _ ⟨⟩
      exact hpath.exists_get? hpath.mem
    have hjoin := hg'.handlesFrom_or hg₁ (ha.symm.trans (alike_detach g c)) (o := none) hsees' ?_
    · rw [or_none, handlesFrom_none, append_nil] at hjoin
      exact hjoin.symm
    intro x hx
    have hplace : x ≠ place.owner := hg'.ne_of_mem_handlesFrom hpath hx
      (mem_append_right _ (mem_cons_of_mem _ hlo.mem))
    have htail : x ≠ g.lastOf child := hg'.ne_of_mem_handlesFrom hpath hx hl₁.mem
    refine ext fun y => ?_
    rw [or_none, ← hg₁.linked, ← hg'.linked, hparent, hg.parent?_detach hc]
    by_cases hy : y = child
    · rw [if_pos hy, if_pos hy]
      simp only [Option.some.injEq, reduceCtorEq, false_iff]
      rintro rfl
      exact hplace rfl
    · rw [if_neg hy, if_neg hy]
      by_cases ho' : g.at? place = some y
      · rw [if_pos ho', hg.linked.mpr ho']
        simp only [Option.some.injEq, Place.mk.injEq, and_true, Ne.symm htail, iff_false]
        rintro rfl
        exact hplace rfl
      · rw [if_neg ho']

end Splice

end Forest

def connectChain (g : Graph) (owner : Handle) (position : ChainPosition) (child : Handle) :
    Except GraphError Edit :=
  match position with
  | .next => g.connectNext owner child
  | .slot name => g.connectStatement owner name child

theorem Forest.connectChain_eq {g : Graph} (hg : g.Forest) {owner child : Handle} {p : Node}
    (hp : g.get? owner = some p) {position : ChainPosition} (hpos : position.IsOf p) :
    g.connectChain owner position child = g.attachChain p position (p.at? position.name) child := by
  cases position with
  | next =>
    obtain ⟨spec, hspec, hstatement⟩ := hg.exists_spec_of_isStatement hpos
    simp only [connectChain, Graph.connectNext, node_eq_ok_iff.mpr hp, hspec, hstatement, bind, Except.bind,
      Bool.not_true, Bool.false_eq_true, if_false]
    rfl
  | slot name =>
    obtain ⟨-, spec, hc⟩ := hg.sound hp
    obtain ⟨hne, hv⟩ := ChainPosition.slot_of_isOf hc hpos
    have hslot : p.statementSlot name = .ok (p.at? name) := by
      rw [p.at?_of_ne hne, hv]
      unfold Node.statementSlot
      cases hget : p.statementSlots.get? name with
      | none => exact absurd (Table.contains_iff.mp hpos) (Table.get?_eq_none_iff.mp hget)
      | some target => rfl
    simp only [connectChain, Graph.connectStatement, node_eq_ok_iff.mpr hp, hslot, bind, Except.bind]
    rfl

theorem Alike.map_nodes {g g' : Graph} (ha : g.Alike g') : g'.nodes.map (·.handle) = g.nodes.map (·.handle) := by
  have hhandle : ∀ h, (g'.get? h).map (·.handle) = (g.get? h).map (·.handle) := by
    intro h
    have := congrArg (Option.map Node.handle) (ha.bare h)
    rwa [Option.map_map, Option.map_map] at this
  have hsize : g'.cells.size = g.cells.size := Nat.succ.inj ha.next
  rw [nodes_eq, nodes_eq, map_filterMap, map_filterMap, hsize]
  exact filterMap_congr fun i _ => hhandle (i + 1)

/-- **Splicing loses nothing.** Take a graph that commands lead to, a position for statements of one of its
blocks, and a statement that the block is no part of. Putting the statement at the position, with all
that comes after it, is done without complaint. The chain at the position is then the chain of the
statement, followed by the chain that was there, without its end if that is the chain of the statement.
The place where the statement was before is empty, unless it is the same; all blocks stay where they
are, but for the statement and what was at the position; and there are the same blocks as before. -/
theorem connectChain_splices {g : Graph} (hg : g.Reachable) {owner child : Handle} {p c : Node}
    {position : ChainPosition} (hp : g.get? owner = some p) (hpos : position.IsOf p)
    (hc : g.get? child = some c) (hst : c.isStatement = true)
    (hout : ∀ m ∈ g.ancestry p, m.handle ≠ child) :
    let former := g.handlesFrom (g.occupant owner position.name)
    let moved := g.handlesFrom (some child)
    ∃ e, g.connectChain owner position child = .ok e ∧ e.lost = none
      ∧ (∃ kept, former = kept ++ (if child ∈ former then moved else [])
        ∧ e.graph.handlesFrom (e.graph.occupant owner position.name) = moved ++ kept)
      ∧ (∀ q, c.parent = some q → q ≠ ⟨owner, position.name⟩ →
        e.graph.occupant q.owner q.connection = none)
      ∧ (∀ x, x ≠ child → g.occupant owner position.name ≠ some x →
        e.graph.parent? x = g.parent? x)
      ∧ e.graph.nodes.map (·.handle) = g.nodes.map (·.handle) := by
  intro former moved
  have hforest := hg.forest
  obtain rfl := hforest.handle_eq hp
  obtain ⟨-, spec, hconforms⟩ := hforest.sound hp
  obtain ⟨l, hl⟩ := hforest.rooted hp
  have hpart : g.isPartOf p c = false := by
    rw [isPartOf, List.any_eq_false]
    intro m hm
    rw [hforest.handle_eq hc, beq_iff_eq]
    exact hout m hm
  have hcl : child ∉ l := by
    rw [← hforest.handle_eq hc, ← hforest.isPartOf_iff hp hl, hpart]
    exact Bool.false_ne_true
  have htakes : g.Takes ⟨p.handle, position.name⟩ child :=
    ⟨p, c, hp, hc, _, ChainPosition.socket?_eq hconforms hpos, hst⟩
  obtain ⟨e, he, hlost, hforest', ha, hparent⟩ := hforest.splice hp hpos hc hst hpart
  rw [hforest.lastOf_attach hc htakes hl hcl] at hparent
  -- what is at the position, in both graphs
  have hocc : g.occupant p.handle position.name = g.at? ⟨p.handle, position.name⟩ :=
    ChainPosition.occupant_eq hp hconforms hpos
  have hocc' : ∀ {q : Place} {m : Node} {position : ChainPosition}, g.get? q.owner = some m →
      position.IsOf m → q = ⟨q.owner, position.name⟩ →
      e.graph.occupant q.owner q.connection = e.graph.at? q := by
    intro q m position hm hpos hq
    obtain ⟨m', hm', hbare⟩ := ha.exists_get? hm
    obtain ⟨-, spec', hc'⟩ := hforest'.sound hm'
    have := ChainPosition.occupant_eq hm' hc' (ChainPosition.isOf_of_bare hbare hpos)
    rwa [← hq, ← show q.connection = position.name from congrArg Place.connection hq] at this
  have hput : e.graph.at? ⟨p.handle, position.name⟩ = some child := by
    rw [← hforest'.linked, hparent, if_pos rfl]
  refine ⟨e, (hforest.connectChain_eq hp hpos).trans he, hlost, ?_, ?_, ?_, ha.map_nodes⟩
  · refine ⟨former.takeWhile (· ≠ child), ?_, ?_⟩
    · refine hforest.handlesFrom_eq_append child ?_
      rw [hocc]
      exact hforest.sees_at? _
    · rw [hocc' (q := ⟨p.handle, position.name⟩) hp hpos rfl, hput,
        hforest.handlesFrom_splice hforest' ha hc hl hcl hparent, ← hocc]
  · intro q hq hne
    obtain ⟨m, position', hm, hpos', hname⟩ := hforest.exists_chainPosition hc hst hq
    rw [hocc' hm hpos' hname]
    obtain ⟨hlast, -⟩ := hforest.at?_lastOf hc
    obtain ⟨lc, hlc⟩ := hforest.rooted hc
    have hat := hforest.at?_of_parent hc hq
    refine Option.eq_none_iff_forall_ne_some.mpr fun x hx => ?_
    rw [← hforest'.linked, hparent] at hx
    split at hx
    · exact hne (Option.some.inj (Option.some.inj hx)).symm
    · next hxc =>
      split at hx
      · -- the chain of the statement would lead back to the statement
        obtain rfl := Option.some.inj (Option.some.inj hx)
        exact hforest.at?_ne_of_mem_handlesFrom hlc hlast hlc.mem nextPosition hat
      · exact hxc (Option.some.inj ((hforest.linked.mp hx).symm.trans hat))
  · intro x hx hocc''
    rw [hocc] at hocc''
    rw [hparent, if_neg hx, if_neg hocc'']

def fourStatements : Graph :=
  (Editor.run {}
    [.create "main_task" {}, .create "variable_set" { fields := [("VAR", .text "a")] },
      .create "variable_set" { fields := [("VAR", .text "b")] },
      .create "variable_set" { fields := [("VAR", .text "c")] },
      .create "variable_set" { fields := [("VAR", .text "d")] },
      .connectStatement 1 "STATEMENTS" 2, .connectNext 2 3, .connectNext 3 4, .connectNext 4 5]).graph

/-- The last two of the statements are put before the first two. -/
theorem connectChain_splices_four :
    fourStatements.handlesFrom (fourStatements.occupant 1 "STATEMENTS") = [2, 3, 4, 5]
      ∧ ∃ e, fourStatements.connectChain 1 (.slot "STATEMENTS") 4 = .ok e
        ∧ e.graph.handlesFrom (e.graph.occupant 1 "STATEMENTS") = [4, 5, 2, 3]
        ∧ e.graph.occupant 3 nextPosition = none := by
  have hg : fourStatements.Reachable := reachable_run .empty _
  have hslot : (fourStatements.get? 1).map (·.statementSlots.contains "STATEMENTS") = some true := by
    decide +kernel
  have hancestry : (fourStatements.get? 1).map (fun p => (fourStatements.ancestry p).map (·.handle))
      = some [1] := by
    decide +kernel
  have hstatement : (fourStatements.get? 4).map (·.isStatement) = some true := by decide +kernel
  have hplace : fourStatements.parent? 4 = some (some ⟨3, nextPosition⟩) := by decide +kernel
  have hformer : fourStatements.handlesFrom (fourStatements.occupant 1 "STATEMENTS")
      = [2, 3, 4, 5] := by
    decide +kernel
  have hmoved : fourStatements.handlesFrom (some 4) = [4, 5] := by decide +kernel
  obtain ⟨p, hp, hpos⟩ := Option.map_eq_some_iff.mp hslot
  obtain ⟨c, hc, hst⟩ := Option.map_eq_some_iff.mp hstatement
  rw [hp, Option.map_some, Option.some.injEq] at hancestry
  rw [parent?_of_get? hc, Option.some.injEq] at hplace
  have hout : ∀ m ∈ fourStatements.ancestry p, m.handle ≠ 4 := by
    intro m hm heq
    have hmem : m.handle ∈ [1] := hancestry ▸ List.mem_map_of_mem hm
    rw [heq] at hmem
    exact absurd hmem (by decide)
  obtain ⟨e, he, -, ⟨kept, hsplit, hchain⟩, hempty, -⟩ :=
    connectChain_splices hg hp (show ChainPosition.IsOf p (.slot "STATEMENTS") from hpos) hc hst hout
  rw [show ChainPosition.name (.slot "STATEMENTS") = "STATEMENTS" from rfl] at hsplit hchain hempty
  rw [hformer, hmoved, if_pos (by decide)] at hsplit
  have hkept : [2, 3] = kept :=
    List.append_cancel_right (show [2, 3] ++ [4, 5] = kept ++ [4, 5] from hsplit)
  rw [hmoved, ← hkept] at hchain
  exact ⟨hformer, e, he, hchain, hempty _ hplace (by decide)⟩

end Graph

end NqcBlocks
