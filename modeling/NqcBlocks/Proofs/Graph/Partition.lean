import Mathlib
import NqcBlocks.Proofs.Graph.Runs

/-!
# How the blocks of a forest hang together

Every block of a forest is within exactly one block that stands on its own. What is below a block can
be listed with a stack of the blocks still to be seen (`Graph.Walks`): the walk comes to its end, and it
lists each block before what is plugged into it. So the blocks that stand on their own, each with
everything below it, make up the graph (`Forest.mem_topBlocks_subtrees_iff`,
`Forest.nodup_topBlocks_subtrees`).
-/

namespace NqcBlocks

open List Option

variable {n : Node} {h : Handle} {g : Graph} {e : Editor}

namespace Graph

/-! ## Walking with a stack -/

/-- **A walk through a graph** that keeps the blocks still to be seen on a stack: it takes the first
one, and puts what is plugged into it, values before statements and these before what comes next, in
front of the others. The list is what has been seen when the stack is empty. -/
inductive Walks (g : Graph) : List Handle → List Node → Prop
  | done : Walks g [] []
  | visit {h : Handle} {n : Node} {rest : List Handle} {seen : List Node} : g.get? h = some n →
      Walks g (n.targets ++ rest) seen → Walks g (h :: rest) (n :: seen)

namespace Forest

theorem walks_subtree (hg : g.Forest) (hn : g.get? n.handle = some n) {rest : List Handle}
    {seen : List Node} (hrest : g.Walks rest seen) : g.Walks (n.handle :: rest) (g.subtree n ++ seen) := by
  refine hg.induction_children (P := fun n => ∀ {rest seen}, g.Walks rest seen →
    g.Walks (n.handle :: rest) (g.subtree n ++ seen)) (fun {n} hn ih rest seen hrest => ?_) hn hrest
  have hchildren : ∀ cs : List Node, cs ⊆ g.childrenOf n →
      g.Walks (cs.map (·.handle) ++ rest) (cs.flatMap g.subtree ++ seen) := by
    intro cs
    induction cs with
    | nil => exact fun _ => hrest
    | cons c cs ihcs =>
      intro hsub
      rw [map_cons, cons_append, flatMap_cons, append_assoc]
      exact ih c (hsub mem_cons_self) (ihcs fun x hx => hsub (mem_cons_of_mem _ hx))
  rw [hg.subtree_eq hn]
  refine .visit hn ?_
  rw [← hg.map_childrenOf hn]
  exact hchildren _ fun _ hc => hc

/-! ## The blocks that stand on their own -/

theorem get?_of_mem_ancestryWithin (hg : g.Forest) {fuel : Nat} {m : Node}
    (hn : g.get? n.handle = some n) (hm : m ∈ g.ancestryWithin fuel n) : g.get? m.handle = some m := by
  induction fuel generalizing n with
  | zero =>
    rw [mem_singleton.mp hm]
    exact hn
  | succ fuel ih =>
    rcases mem_cons.mp hm with rfl | hm
    · exact hn
    split at hm
    · cases hm
    · next p hp =>
      obtain ⟨q, -, hq⟩ := Option.bind_eq_some_iff.mp hp
      exact ih (by rw [hg.handle_eq hq]; exact hq) hm

theorem exists_root (hg : g.Forest) (hn : g.get? h = some n) :
    ∃ r ∈ g.topBlocks, g.rootOf h = .ok r ∧ g.Within h r.handle := by
  have hlast : ∀ {h l}, g.Path h l → ∃ x, l.getLast? = some x ∧ g.parent? x = some none := by
    intro h l hl
    induction hl with
    | top hp => exact ⟨_, rfl, hp⟩
    | up _ hl ih =>
      obtain ⟨x, hx, hp⟩ := ih
      exact ⟨x, by rw [getLast?_cons, hx]; rfl, hp⟩
  obtain ⟨l, hl⟩ := hg.rooted hn
  obtain ⟨x, hx, hp⟩ := hlast hl
  have hmap : (g.ancestry n).map (·.handle) = l := by
    have := hl.length_le
    exact hg.map_ancestryWithin hl hn (by unfold reach; omega)
  rw [← hmap, getLast?_map, map_eq_some_iff] at hx
  obtain ⟨r, hr, rfl⟩ := hx
  have hmem : r ∈ g.ancestry n := mem_of_getLast? hr
  have hget := hg.get?_of_mem_ancestryWithin (by rw [hg.handle_eq hn]; exact hn) hmem
  rw [parent?_of_get? hget, Option.some.injEq] at hp
  refine ⟨r, hg.mem_topBlocks_iff.mpr ⟨hget, hp⟩, ?_, l, hl, hmap ▸ List.mem_map_of_mem hmem⟩
  unfold rootOf lostParent?
  simp only [node_eq_ok_iff.mpr hn, hr, getD_some, hp, bind, Except.bind]
  rfl

theorem parent?_of_mem_topBlocks (hg : g.Forest) {r : Node} (hr : r ∈ g.topBlocks) :
    g.get? r.handle = some r ∧ g.parent? r.handle = some none := by
  obtain ⟨hget, hp⟩ := hg.mem_topBlocks_iff.mp hr
  exact ⟨hget, by rw [parent?_of_get? hget, hp]⟩

theorem mem_topBlocks_subtrees_iff (hg : g.Forest) : n ∈ g.topBlocks.flatMap g.subtree ↔ n ∈ g.nodes := by
  rw [mem_flatMap, hg.mem_nodes_iff_get?]
  constructor
  · rintro ⟨r, hr, hn⟩
    exact ((hg.mem_subtree_iff (hg.parent?_of_mem_topBlocks hr).1).mp hn).1
  · intro hn
    obtain ⟨r, hr, -, hw⟩ := hg.exists_root hn
    exact ⟨r, hr, (hg.mem_subtree_iff (hg.parent?_of_mem_topBlocks hr).1).mpr ⟨hn, hw⟩⟩

theorem nodup_topBlocks (hg : g.Forest) : (g.topBlocks.map (·.handle)).Nodup :=
  (hg.typedForest.ordered.imp Nat.ne_of_lt).sublist (List.filter_sublist.map _)

theorem nodup_topBlocks_subtrees (hg : g.Forest) : ((g.topBlocks.flatMap g.subtree).map (·.handle)).Nodup := by
  rw [map_flatMap, nodup_flatMap]
  refine ⟨fun r hr => hg.nodup_subtree (hg.parent?_of_mem_topBlocks hr).1, ?_⟩
  refine (pairwise_map.mp hg.nodup_topBlocks).imp_of_mem fun {r s} hr hs hne x hx hx' => hne ?_
  obtain ⟨hr, hrp⟩ := hg.parent?_of_mem_topBlocks hr
  obtain ⟨hs, hsp⟩ := hg.parent?_of_mem_topBlocks hs
  exact ((hg.mem_map_subtree_iff hr).mp hx).eq_of_tops ((hg.mem_map_subtree_iff hs).mp hx') hrp hsp

end Forest

/-! ## Deleting a block -/

/-- **What is below a block has been taken out of a graph**, and the position that held the block is
empty. -/
structure Sheds (g : Graph) (n : Node) (g' : Graph) : Prop where
  gone : ∀ x, g'.get? x = none ↔ g.get? x = none ∨ x ∈ (g.subtree n).map (·.handle)
  kept : ∀ {x m m'}, g.get? x = some m → g'.get? x = some m' → m'.bare = m.bare ∧ m'.parent = m.parent
    ∧ ∀ k c, m'.Holds k c ↔ m.Holds k c ∧ c ≠ n.handle
  next : g'.nextHandle = g.nextHandle

theorem Forest.sheds_of_delete (hg : g.Forest) (hn : g.get? n.handle = some n) :
    ∃ e, g.delete n.handle = .ok e ∧ e.lost = none ∧ g.Sheds n e.graph := by
  obtain ⟨e, he, hlost, -, hnext, hget, -⟩ := hg.delete_eq hn
  refine ⟨e, he, hlost, fun x => ?_, fun {x m m'} hm hm' => ?_, hnext⟩
  · rw [hget]
    split
    · next hx => exact iff_of_true rfl (.inr hx)
    · next hx => rw [map_eq_none_iff, or_iff_left hx]
  · rw [hget, hm] at hm'
    split at hm'
    · cases hm'
    next hx =>
    obtain rfl : m.released n.parent = m' := Option.some.inj hm'
    obtain ⟨hbare, hparent⟩ := m.released_frame n.parent
    refine ⟨hbare, hparent, fun k c => ?_⟩
    obtain ⟨-, spec, hc⟩ := hg.sound hm
    have hc' := Node.conforms_bare.mp (hbare ▸ Node.conforms_bare.mpr hc)
    have hne : x ≠ n.handle := fun e => hx (e ▸ (hg.mem_map_subtree_iff hn).mpr (hg.within_self hn))
    have hat := hg.at?_detach_eq_filter hn (p := ⟨x, k⟩)
    rw [at?_of_get? (p := ⟨x, k⟩) (by rw [hg.get?_detach hn hne, hm]; rfl), at?_of_get? (p := ⟨x, k⟩) hm]
      at hat
    rw [Node.holds_iff hc, Node.holds_iff hc', hat, filter_eq_some_iff, decide_eq_true_iff]

/-! ## What is told of blocks that are deleted -/

def look (g : Graph) (x : Handle) : Option (Option Place × Event × List Handle) :=
  (g.get? x).map fun n => (n.parent, eventOf .delete n, n.targets)

theorem get?_eq_none_iff_look {x : Handle} : g.get? x = none ↔ g.look x = none :=
  map_eq_none_iff.symm

theorem parent?_eq_look (g : Graph) (x : Handle) : g.parent? x = (g.look x).map (·.1) := by
  unfold parent? look
  rw [Option.map_map]
  rfl

theorem look_setFlags (g : Graph) (h : Handle) (enabled : Bool) (warning : Option String) :
    (g.setFlags h enabled warning).look = g.look := by
  funext x
  unfold look setFlags
  rw [get?_modify]
  split
  · rw [Option.map_map]
    rfl
  · rfl

def farewell (g : Graph) (h : Handle) : List Event :=
  ((g.get? h).toList.flatMap g.subtree).map (eventOf .delete ·)

theorem farewell_of_get? (hn : g.get? h = some n) : g.farewell h = (g.subtree n).map (eventOf .delete ·) := by
  unfold farewell
  rw [hn, toList_some, flatMap_singleton]

theorem Forest.farewell_congr {g' : Graph} (hg : g.Forest) (hreach : g'.reach = g.reach)
    (hlook : ∀ x, g.Within x h → g'.look x = g.look x) (hn : g.get? h = some n) :
    g'.farewell h = g.farewell h := by
  obtain ⟨n', hn', heq⟩ := map_eq_some_iff.mp ((hlook h (hg.within_self hn)).trans (congrArg (Option.map _) hn))
  rw [Prod.mk.injEq, Prod.mk.injEq] at heq
  rw [farewell_of_get? hn, farewell_of_get? hn']
  unfold subtree
  rw [hreach]
  refine map_subtreeWithin_congr _ heq.2.1 heq.2.2 fun m hm c hc => ?_
  obtain ⟨hmget, hw⟩ := (hg.mem_subtree_iff hn).mp hm
  obtain ⟨p, hp, ho⟩ := (hg.mem_targets_iff hmget).mp hc
  have hc' := congrArg (Option.map Prod.snd) (hlook c (within_of_parent hp (ho ▸ hw)))
  unfold look at hc'
  rwa [Option.map_map, Option.map_map] at hc'

end Graph

namespace Editor

open Graph

theorem log_foldl_tell (events : List Event) (e : Editor) : (events.foldl tell e).log = e.log ++ events := by
  induction events generalizing e with
  | nil => exact (append_nil _).symm
  | cons v events ih => rw [foldl_cons, ih, tell, append_assoc, singleton_append]

theorem log_commit (e : Editor) (edit : Edit) :
    (e.commit edit).log = e.log ++ edit.notices.map (·.event) := log_foldl_tell _ _

theorem apply_delete_top (hg : e.graph.Forest) (hp : e.graph.parent? h = some none) :
    ∃ e', e.apply (·.delete h) = (e', .ok ()) ∧ e'.graph.Forest
      ∧ e'.graph.nextHandle = e.graph.nextHandle ∧ e'.log = e.log ++ e.graph.farewell h
      ∧ (∀ x, e.graph.Within x h → e'.graph.look x = none)
      ∧ ∀ x, ¬ e.graph.Within x h → e'.graph.look x = e.graph.look x := by
  obtain ⟨n, hn, hp⟩ := exists_get?_of_parent? hp
  obtain ⟨edit, hedit, hlost, -, hnext, hget, hnotices⟩ := hg.delete_eq hn
  have hkeep : (e.commit edit).graph.look = edit.graph.look
      ∧ (e.commit edit).graph.nextHandle = edit.graph.nextHandle :=
    foldl_tell_induct (P := fun g => g.look = edit.graph.look ∧ g.nextHandle = edit.graph.nextHandle)
      (fun h => ⟨(look_setFlags _ _ _ _).trans h.1, (nextHandle_modify _ _ _).trans h.2⟩)
      (e := { e with graph := edit.graph }) ⟨rfl, rfl⟩
  have hlook : ∀ x, (e.commit edit).graph.look x = (edit.graph.get? x).map _ := fun x =>
    congrFun hkeep.1 x
  refine ⟨e.commit edit, ?_, (leadsTo_commit (hg.delete hedit).toLeadsTo).forest, hkeep.2.trans hnext, ?_,
    fun x hx => ?_, fun x hx => ?_⟩
  · unfold apply
    simp only [hedit, hlost]
  · rw [log_commit, hnotices, List.map_map, farewell_of_get? hn]
    rfl
  · rw [hlook, hget, if_pos ((hg.mem_map_subtree_iff hn).mpr hx)]
    rfl
  · rw [hlook, hget, if_neg fun hmem => hx ((hg.mem_map_subtree_iff hn).mp hmem), hp]
    exact congrArg _ (Option.map_id' (x := e.graph.get? x))

theorem deleteAll_tops {hs : List Handle} (hg : e.graph.Forest) (hnd : hs.Nodup)
    (htop : ∀ h ∈ hs, e.graph.parent? h = some none) :
    ∃ e', e.deleteAll hs = (e', .ok ()) ∧ e'.log = e.log ++ hs.flatMap e.graph.farewell
      ∧ ∀ x, e.graph.get? x = none ∨ (∃ h ∈ hs, e.graph.Within x h) → e'.graph.get? x = none := by
  induction hs generalizing e with
  | nil => exact ⟨e, rfl, (append_nil _).symm, fun _ hx => hx.resolve_right (by simp)⟩
  | cons h hs ih =>
    rw [nodup_cons] at hnd
    have hp := htop h mem_cons_self
    obtain ⟨e₁, happly, hforest, hnext, hlog, hgone, hkept⟩ := apply_delete_top hg hp
    -- what is within another block on its own is not touched
    have hother : ∀ {r}, r ∈ hs → e.graph.parent? r = some none
        ∧ ∀ {x}, e.graph.Within x r → e₁.graph.look x = e.graph.look x := by
      intro r hr
      have hrp := htop r (mem_cons_of_mem _ hr)
      exact ⟨hrp, fun hx => hkept _ fun hx' => hnd.1 (hx'.eq_of_tops hx hp hrp ▸ hr)⟩
    have htop₁ : ∀ r ∈ hs, e₁.graph.parent? r = some none := by
      intro r hr
      obtain ⟨hrp, hsame⟩ := hother hr
      obtain ⟨n, hn, -⟩ := exists_get?_of_parent? hrp
      rw [parent?_eq_look, hsame (hg.within_self hn), ← parent?_eq_look, hrp]
    obtain ⟨e', hall, hlog', hgone'⟩ := ih hforest hnd.2 htop₁
    refine ⟨e', by rw [deleteAll, happly]; exact hall, ?_, fun x hx => hgone' x ?_⟩
    · rw [hlog', hlog, append_assoc, flatMap_cons]
      refine congrArg (fun l => e.log ++ (e.graph.farewell h ++ l)) (flatMap_congr fun r hr => ?_)
      obtain ⟨hrp, hsame⟩ := hother hr
      obtain ⟨n, hn, -⟩ := exists_get?_of_parent? hrp
      exact hg.farewell_congr hnext (fun x hx => hsame hx) hn
    · rcases hx with hx | ⟨r, hr, l, hl, hrl⟩
      · refine .inl (get?_eq_none_iff_look.mpr ((hkept x fun hw => ?_).trans (get?_eq_none_iff_look.mp hx)))
        obtain ⟨l, hl, -⟩ := hw
        obtain ⟨n, hn⟩ := hl.exists_get? hl.mem
        cases hx.symm.trans hn
      rcases mem_cons.mp hr with rfl | hr
      · exact .inl (get?_eq_none_iff_look.mpr (hgone x ⟨l, hl, hrl⟩))
      · -- the way outwards is as it was
        obtain ⟨hrp, hsame⟩ := hother hr
        refine .inr ⟨r, hr, l, hl.congr fun y hy => ?_, hrl⟩
        rw [parent?_eq_look, parent?_eq_look, hsame]
        rcases Within.total ⟨l, hl, hy⟩ ⟨l, hl, hrl⟩ with hw | hw
        · exact hw
        · exact eq_of_within_of_top hrp hw ▸ hw

theorem perform_clear (hg : e.graph.Forest) : ∃ e', e.perform .clear = (e', .ok ()) ∧ (∀ x, e'.graph.get? x = none)
      ∧ e'.log = e.log ++ (e.graph.topBlocks.flatMap e.graph.subtree).map (eventOf .delete ·) := by
  have htop : ∀ h ∈ e.graph.topBlocks.map (·.handle), e.graph.parent? h = some none := by
    intro h hh
    obtain ⟨r, hr, rfl⟩ := List.mem_map.mp hh
    exact (hg.parent?_of_mem_topBlocks hr).2
  obtain ⟨e', hall, hlog, hgone⟩ := deleteAll_tops hg hg.nodup_topBlocks htop
  refine ⟨e', hall, fun x => hgone x ?_, ?_⟩
  · cases hx : e.graph.get? x with
    | none => exact .inl rfl
    | some n =>
      obtain ⟨r, hr, -, hw⟩ := hg.exists_root hx
      exact .inr ⟨r.handle, List.mem_map_of_mem hr, hw⟩
  · rw [hlog, flatMap_map, map_flatMap]
    refine congrArg (e.log ++ ·) (flatMap_congr fun r hr => ?_)
    exact farewell_of_get? (hg.parent?_of_mem_topBlocks hr).1

end Editor

namespace Graph

/-! ## Trees of blocks -/

/-- **A graph falls apart into trees**, and what is deleted is as much of one as was asked for. -/
structure FallsApart (g : Graph) : Prop where
  below : ∀ n ∈ g.nodes, g.descendants n.handle = .ok (g.subtree n) ∧ g.Walks [n.handle] (g.subtree n)
    ∧ g.subtree n = n :: (g.childrenOf n).flatMap g.subtree ∧ (g.subtree n).Nodup
    ∧ ∀ m, m ∈ g.subtree n ↔ m ∈ g.nodes ∧ g.Within m.handle n.handle
  disjoint : g.topBlocks.Pairwise fun r s => (g.subtree r).Disjoint (g.subtree s)
  covers : ∀ n, n ∈ g.nodes ↔ ∃ r ∈ g.topBlocks, n ∈ g.subtree r
  root : ∀ n ∈ g.nodes, ∃ r, g.rootOf n.handle = .ok r
    ∧ ∀ s, s ∈ g.topBlocks ∧ n ∈ g.subtree s ↔ s = r
  delete : ∀ n ∈ g.nodes, ∃ e, g.delete n.handle = .ok e ∧ e.lost = none ∧ g.Sheds n e.graph
  clear : ∀ e : Editor, e.graph = g → ∃ e', e.perform .clear = (e', .ok ()) ∧ e'.graph.nodes = []

/-- **Every reachable graph falls apart into trees.** -/
theorem fallsApart_of_reachable {g : Graph} (hg : g.Reachable) : g.FallsApart where
  below := by
    intro n hn
    have hget := hg.forest.mem_nodes_iff_get?.mp hn
    have hwalks := hg.forest.walks_subtree hget .done
    rw [List.append_nil] at hwalks
    refine ⟨hg.forest.descendants_eq hget, hwalks, hg.forest.subtree_eq hget,
      (hg.forest.nodup_subtree hget).of_map _, fun m => ?_⟩
    rw [hg.forest.mem_subtree_iff hget, hg.forest.mem_nodes_iff_get?]
  disjoint := by
    have hnd := hg.forest.nodup_topBlocks_subtrees
    rw [List.map_flatMap, List.nodup_flatMap] at hnd
    exact hnd.2.imp fun hdisjoint n hn hn' => hdisjoint (List.mem_map_of_mem hn) (List.mem_map_of_mem hn')
  covers := fun n => by rw [← hg.forest.mem_topBlocks_subtrees_iff, List.mem_flatMap]
  root := by
    intro n hn
    have hget := hg.forest.mem_nodes_iff_get?.mp hn
    obtain ⟨r, hr, hroot, hw⟩ := hg.forest.exists_root hget
    refine ⟨r, hroot, fun s => ⟨?_, ?_⟩⟩
    · rintro ⟨hs, hns⟩
      obtain ⟨hrget, hrp⟩ := hg.forest.parent?_of_mem_topBlocks hr
      obtain ⟨hsget, hsp⟩ := hg.forest.parent?_of_mem_topBlocks hs
      have hsame := ((hg.forest.mem_subtree_iff hsget).mp hns).2.eq_of_tops hw hsp hrp
      rw [hsame, hrget] at hsget
      exact (Option.some.inj hsget).symm
    · rintro rfl
      have hsget := (hg.forest.parent?_of_mem_topBlocks hr).1
      exact ⟨hr, (hg.forest.mem_subtree_iff hsget).mpr ⟨hget, hw⟩⟩
  delete := fun n hn => hg.forest.sheds_of_delete (hg.forest.mem_nodes_iff_get?.mp hn)
  clear := by
    rintro e rfl
    obtain ⟨e', he', hnone, -⟩ := Editor.perform_clear hg.forest
    refine ⟨e', he', List.eq_nil_iff_forall_not_mem.mpr fun n hn => ?_⟩
    obtain ⟨h, hn⟩ := mem_nodes_iff.mp hn
    cases (hnone h).symm.trans hn

def countedLoop : Graph :=
  (Editor.run {}
    [.create "main_task" {}, .create "play_sound" {}, .create "repeat_times" {}, .create "motor_off" {},
      .create "number" {}, .create "number" {}, .connectNext 3 2, .connectValue 3 "TIMES" 5,
      .connectStatement 3 "DO" 4, .connectStatement 1 "STATEMENTS" 3]).graph

theorem reachable_countedLoop : countedLoop.Reachable := reachable_run .empty _

theorem fallsApart_countedLoop : countedLoop.FallsApart
    ∧ countedLoop.topBlocks.map (fun r => (countedLoop.subtree r).map (·.handle)) = [[1, 3, 5, 4, 2], [6]]
    ∧ (countedLoop.delete 3).toOption.map (·.graph.nodes.map (·.handle)) = some [1, 6] := by
  refine ⟨fallsApart_of_reachable reachable_countedLoop, ?_, ?_⟩ <;> decide +kernel

end Graph

end NqcBlocks
