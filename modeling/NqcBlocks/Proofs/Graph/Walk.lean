import NqcBlocks.Proofs.Graph.Forest

/-!
# Walks in a forest

A walk along the links of a graph is cut off after as many steps as there are cells. In a forest no
walk gets that far, and so each of them sees exactly what it is meant to see:
-/

namespace NqcBlocks

open List Option

variable {c h : Handle} {n : Node} {p : Place} {l : List Handle}

namespace Graph

/-! ## Being part of a block -/

section Within

variable {g : Graph} {x y : Handle}

def Within (g : Graph) (x h : Handle) : Prop := ∃ l, g.Path x l ∧ h ∈ l

theorem within_of_parent (hp : g.parent? x = some (some p)) (hw : g.Within p.owner h) : g.Within x h := by
  obtain ⟨l, hl, hh⟩ := hw
  exact ⟨x :: l, .up hp hl, mem_cons_of_mem _ hh⟩

theorem within_iff_of_parent (hp : g.parent? x = some (some p)) (hx : x ≠ h) : g.Within x h ↔ g.Within p.owner h := by
  refine ⟨?_, within_of_parent hp⟩
  rintro ⟨l, hl, hh⟩
  cases hl with
  | top hp' => cases hp.symm.trans hp'
  | up hp' hl =>
    cases hp.symm.trans hp'
    exact ⟨_, hl, (mem_cons.mp hh).resolve_left (Ne.symm hx)⟩

theorem eq_of_within_of_top (hp : g.parent? x = some none) (hx : g.Within x h) : x = h := by
  obtain ⟨l, hl, hh⟩ := hx
  rw [hl.unique (.top hp), mem_singleton] at hh
  exact hh.symm

theorem not_within_owner (hp : g.parent? h = some (some p)) : ¬ g.Within p.owner h := by
  rintro ⟨l, hl, hh⟩
  exact (nodup_cons.mp (Path.up hp hl).nodup).1 hh

theorem Within.trans (hx : g.Within x y) (hy : g.Within y h) : g.Within x h := by
  obtain ⟨l, hl, hmem⟩ := hx
  obtain ⟨l', hl', hh⟩ := hy
  obtain ⟨l₁, l₂, rfl, hl₂⟩ := hl.exists_suffix hmem
  exact ⟨_, hl, mem_append_right _ (hl₂.unique hl' ▸ hh)⟩

theorem Within.total (hy : g.Within x y) (hh : g.Within x h) : g.Within y h ∨ g.Within h y := by
  obtain ⟨l, hl, hy⟩ := hy
  obtain ⟨l', hl', hh⟩ := hh
  cases hl.unique hl'
  obtain ⟨l₁, l₂, hsplit, hl₂⟩ := hl.exists_suffix hy
  obtain ⟨l₃, l₄, hsplit', hl₄⟩ := hl.exists_suffix hh
  rcases suffix_or_suffix_of_suffix ⟨l₁, hsplit.symm⟩ ⟨l₃, hsplit'.symm⟩ with hsub | hsub
  · exact .inr ⟨l₄, hl₄, hsub.subset hl₂.mem⟩
  · exact .inl ⟨l₂, hl₂, hsub.subset hl₄.mem⟩

theorem Within.eq_of_tops (hy : g.Within x y) (hc : g.Within x c) (hp : g.parent? y = some none)
    (hq : g.parent? c = some none) : y = c := by
  rcases hy.total hc with hw | hw
  · exact eq_of_within_of_top hp hw
  · exact (eq_of_within_of_top hq hw).symm

theorem Within.eq_of_siblings {q : Place} (hy : g.Within x y) (hc : g.Within x c)
    (hp : g.parent? y = some (some p)) (hq : g.parent? c = some (some q)) (ho : p.owner = q.owner) : y = c := by
  by_contra hne
  rcases hy.total hc with hw | hw
  · exact not_within_owner hq (ho ▸ (within_iff_of_parent hp hne).mp hw)
  · exact not_within_owner hp (ho ▸ (within_iff_of_parent hq (Ne.symm hne)).mp hw)

theorem Within.exists_child (hx : g.Within x h) (hne : x ≠ h) :
    ∃ c p, g.parent? c = some (some p) ∧ p.owner = h ∧ g.Within x c := by
  obtain ⟨l, hl, hh⟩ := hx
  induction hl with
  | top hp => exact absurd (mem_singleton.mp hh).symm hne
  | @up x p l hp hl ih =>
    by_cases ho : p.owner = h
    · exact ⟨x, p, hp, ho, x :: l, .up hp hl, mem_cons_self⟩
    · obtain ⟨c, q, hq, hqo, hw⟩ := ih ho ((mem_cons.mp hh).resolve_left (Ne.symm hne))
      exact ⟨c, q, hq, hqo, within_of_parent hp hw⟩

theorem Forest.within_self (hg : g.Forest) (hn : g.get? h = some n) : g.Within h h :=
  (hg.rooted hn).imp fun _ hl => ⟨hl, hl.mem⟩

end Within

namespace Forest

variable {g : Graph}

/-! ## Outwards -/

theorem map_ancestryWithin (hg : g.Forest) (hl : g.Path h l) :
    ∀ {fuel : Nat} {n : Node}, g.get? h = some n → l.length ≤ fuel + 1 →
      (g.ancestryWithin fuel n).map (·.handle) = l := by
  induction hl with
  | @top h hp =>
    intro fuel n hn _
    rw [parent?_of_get? hn] at hp
    have hp : n.parent = none := Option.some.inj hp
    cases fuel with
    | zero => rw [ancestryWithin, map_singleton, hg.handle_eq hn]
    | succ fuel =>
      rw [ancestryWithin, hp]
      show [n.handle] = [h]
      rw [hg.handle_eq hn]
  | @up h p l hp hl ih =>
    intro fuel n hn hlen
    rw [parent?_of_get? hn] at hp
    have hp : n.parent = some p := Option.some.inj hp
    obtain ⟨m, hm⟩ := hl.exists_get? hl.mem
    obtain ⟨l', hl'⟩ := hl.eq_cons
    cases fuel with
    | zero => rw [hl', length_cons, length_cons] at hlen; omega
    | succ fuel =>
      rw [ancestryWithin, hp, bind_some, hm, map_cons, hg.handle_eq hn]
      refine congrArg (h :: ·) (ih hm ?_)
      rw [length_cons] at hlen
      omega

theorem isPartOf_iff (hg : g.Forest) (hn : g.get? h = some n) (hl : g.Path h l) (c : Node) :
    g.isPartOf n c = true ↔ c.handle ∈ l := by
  have hlen : l.length ≤ g.reach + 1 := by
    have := hl.length_le
    unfold reach
    omega
  unfold isPartOf ancestry
  rw [List.any_eq_true, ← hg.map_ancestryWithin hl hn hlen, List.mem_map]
  simp only [beq_iff_eq]

theorem checkPlace_eq_ok (hg : g.Forest) (hn : g.get? h = some n) : g.checkPlace n = .ok () := by
  unfold checkPlace lostParent?
  cases hp : n.parent with
  | none => rfl
  | some p =>
    obtain ⟨m, hm, -⟩ := hg.exists_owner hn hp
    have : g.contains p.owner = true := contains_iff.mpr ⟨m, hm⟩
    rw [bind_some, if_pos this]

/-! ## Along a chain -/

theorem exists_next (hg : g.Forest) (hn : g.get? h = some n) (hc : n.next = some c) :
    ∃ m, g.get? c = some m ∧ m.parent = some ⟨h, nextPosition⟩ ∧ n.isStatement = true
      ∧ m.isStatement = true := by
  obtain ⟨m, hm, hp, s, hs, hfit⟩ := hg.exists_child hn ((n.at?_nextPosition).trans hc)
  refine ⟨m, hm, hp, ?_⟩
  unfold Node.socket? at hs
  rw [if_pos rfl] at hs
  split at hs
  · next hst =>
    cases hs
    exact ⟨hst, hfit⟩
  · cases hs

theorem chainWithin_none (g : Graph) (fuel : Nat) : g.chainWithin fuel none = [] := by
  cases fuel <;> rfl

theorem exists_tail (hg : g.Forest) : ∀ (fuel : Nat) {c : Handle} {n : Node} {l : List Handle},
    g.get? c = some n → g.Path c l → g.cells.size + 1 ≤ fuel + l.length →
      ∃ m, (g.chainWithin fuel (some c)).getLast? = some m ∧ m.next = none
        ∧ g.get? m.handle = some m ∧ (∃ l₁, g.Path m.handle (l₁ ++ l))
        ∧ (n.isStatement = true → m.isStatement = true) := by
  intro fuel
  induction fuel with
  | zero =>
    intro c n l _ hl hfuel
    have := hl.length_le
    omega
  | succ fuel ih =>
    intro c n l hn hl hfuel
    have hfollow : g.follow? (some c) = some n := hn
    rw [chainWithin, hfollow]
    cases hnext : n.next with
    | none =>
      refine ⟨n, ?_, hnext, ?_, ⟨[], ?_⟩, fun h => h⟩
      · dsimp only
        rw [hnext, chainWithin_none]
        rfl
      · rw [hg.handle_eq hn]
        exact hn
      · rw [hg.handle_eq hn]
        exact hl
    | some c' =>
      obtain ⟨m', hm', hp', -, hst⟩ := hg.exists_next hn hnext
      have hpath : g.Path c' (c' :: l) := .up (by rw [parent?_of_get? hm', hp']) hl
      obtain ⟨m, hm, hmn, hmg, ⟨l₁, hl₁⟩, hms⟩ := ih hm' hpath (by rw [length_cons]; omega)
      refine ⟨m, ?_, hmn, hmg, ⟨l₁ ++ [c'], ?_⟩, fun _ => hms hst⟩
      · dsimp only
        rw [hnext, getLast?_cons, hm]
        rfl
      · rw [append_assoc]
        exact hl₁

/-! ## Inwards -/

end Forest

end Graph

def Node.links (n : Node) : List (String × Handle) :=
  n.valueSlots.filterMap (fun e => e.2.target.map (e.1, ·))
    ++ n.statementSlots.filterMap (fun e => e.2.map (e.1, ·))
    ++ n.next.toList.map (nextPosition, ·)

theorem Node.map_links (n : Node) : n.links.map (·.2) = n.targets := by
  have hmap : ∀ {β : Type} (f : String × β → Option Handle) (t : List (String × β)),
      (t.filterMap fun e => (f e).map (e.1, ·)).map (·.2) = t.filterMap f := by
    intro β f t
    rw [map_filterMap]
    refine filterMap_congr fun e _ => ?_
    rw [Option.map_map]
    exact Option.map_id'
  unfold links targets
  rw [map_append, map_append, hmap (fun e : String × ValueSlot => e.2.target),
    hmap (fun e : String × Option Handle => e.2), List.map_map]
  exact congrArg _ (List.map_id' _)

theorem Node.mem_links_iff (n : Node) {k : String} : (k, h) ∈ n.links ↔ n.Holds k h := by
  unfold links
  simp only [mem_append, mem_filterMap, List.mem_map, mem_toList, map_eq_some_iff, Prod.mk.injEq]
  constructor
  · rintro ((⟨⟨k', s⟩, hmem, h', ht, rfl, rfl⟩ | ⟨⟨k', t⟩, hmem, h', ht, rfl, rfl⟩)
      | ⟨h', ht, rfl, rfl⟩)
    · exact .value hmem ht
    · dsimp only at ht
      subst ht
      exact .statement hmem
    · exact .next ht
  · rintro (⟨hmem, ht⟩ | hmem | ht)
    · exact .inl (.inl ⟨_, hmem, h, ht, rfl, rfl⟩)
    · exact .inl (.inr ⟨_, hmem, h, rfl, rfl, rfl⟩)
    · exact .inr ⟨h, ht, rfl, rfl⟩

theorem Node.nodup_links {spec : BlockSpec} (hc : n.Conforms spec) : (n.links.map (·.1)).Nodup := by
  have hsub : ∀ {β : Type} (f : String × β → Option Handle) (t : List (String × β)),
      List.Sublist ((t.filterMap fun e => (f e).map (e.1, ·)).map (·.1)) (t.map (·.1)) := by
    intro β f t
    induction t with
    | nil => exact List.Sublist.slnil
    | cons e t ih =>
      rw [filterMap_cons, map_cons]
      cases f e with
      | none => exact ih.cons _
      | some h => exact ih.cons_cons _
  have hpos := hc.nodup_positions
  rw [nodup_cons] at hpos
  have hnext : List.Sublist ((n.next.toList.map (nextPosition, ·)).map (·.1)) [nextPosition] := by
    cases n.next with
    | none => exact nil_sublist _
    | some _ => exact List.Sublist.refl _
  have hall : (n.valueSlots.names ++ n.statementSlots.names ++ [nextPosition]).Nodup := by
    rw [nodup_append]
    refine ⟨hpos.2, nodup_singleton _, fun a ha b hb => ?_⟩
    rw [mem_singleton.mp hb]
    exact fun e => hpos.1 (e ▸ ha)
  refine List.Sublist.nodup ?_ hall
  unfold links
  rw [map_append, map_append]
  exact ((hsub _ _).append (hsub _ _)).append hnext

namespace Graph.Forest

variable {g : Graph}

theorem mem_links_iff (hg : g.Forest) (hn : g.get? h = some n) {k : String} :
    (k, c) ∈ n.links ↔ g.parent? c = some (some ⟨h, k⟩) := by
  obtain ⟨-, spec, hc⟩ := hg.sound hn
  rw [n.mem_links_iff, Node.holds_iff hc, hg.linked, at?_of_get? hn]

theorem mem_targets_iff (hg : g.Forest) (hn : g.get? h = some n) :
    c ∈ n.targets ↔ ∃ p, g.parent? c = some (some p) ∧ p.owner = h := by
  rw [← n.map_links, List.mem_map]
  constructor
  · rintro ⟨⟨k, c'⟩, hm, rfl⟩
    exact ⟨⟨h, k⟩, (hg.mem_links_iff hn).mp hm, rfl⟩
  · rintro ⟨p, hp, rfl⟩
    exact ⟨(p.connection, c), (hg.mem_links_iff hn).mpr hp, rfl⟩

theorem nodup_targets (hg : g.Forest) (hn : g.get? h = some n) : n.targets.Nodup := by
  obtain ⟨-, spec, hc⟩ := hg.sound hn
  have hlinks : n.links.Nodup := (Node.nodup_links hc).of_map _
  rw [← n.map_links]
  refine hlinks.map_on fun e he e' he' hh => ?_
  obtain ⟨k, c⟩ := e
  obtain ⟨k', c'⟩ := e'
  dsimp only at hh
  subst hh
  have h₁ := (hg.mem_links_iff hn).mp he
  rw [(hg.mem_links_iff hn).mp he'] at h₁
  injection h₁ with h₁
  injection h₁ with h₁
  injection h₁ with _ h₁
  rw [h₁]

theorem mem_childrenOf_iff (hg : g.Forest) (hn : g.get? h = some n) {m : Node} : m ∈ g.childrenOf n
      ↔ g.get? m.handle = some m ∧ ∃ p, m.parent = some p ∧ p.owner = h := by
  unfold childrenOf
  rw [mem_filterMap]
  constructor
  · rintro ⟨c, hc, hm⟩
    have hh := hg.handle_eq hm
    subst hh
    obtain ⟨p, hp, ho⟩ := (hg.mem_targets_iff hn).mp hc
    rw [parent?_of_get? hm] at hp
    exact ⟨hm, p, Option.some.inj hp, ho⟩
  · rintro ⟨hm, p, hp, ho⟩
    exact ⟨m.handle, (hg.mem_targets_iff hn).mpr ⟨p, by rw [parent?_of_get? hm, hp], ho⟩, hm⟩

theorem path_of_mem_childrenOf (hg : g.Forest) {c : Node} (hn : g.get? h = some n) (hl : g.Path h l)
    (hc : c ∈ g.childrenOf n) : g.get? c.handle = some c ∧ g.Path c.handle (c.handle :: l) := by
  obtain ⟨hget, p, hp, ho⟩ := (hg.mem_childrenOf_iff hn).mp hc
  exact ⟨hget, .up (by rw [parent?_of_get? hget, hp]) (ho ▸ hl)⟩

theorem lostTarget?_eq_none (hg : g.Forest) (hn : g.get? h = some n) : g.lostTarget? n = none := by
  unfold lostTarget?
  rw [find?_eq_none]
  intro c hc
  obtain ⟨p, hp, -⟩ := (hg.mem_targets_iff hn).mp hc
  obtain ⟨m, hm, -⟩ := exists_get?_of_parent? hp
  rw [contains_iff.mpr ⟨m, hm⟩]
  decide

theorem map_childrenOf (hg : g.Forest) (hn : g.get? h = some n) : (g.childrenOf n).map (·.handle) = n.targets := by
  unfold childrenOf
  rw [map_filterMap]
  refine (filterMap_congr fun c hc => ?_).trans filterMap_some
  obtain ⟨p, hp, -⟩ := (hg.mem_targets_iff hn).mp hc
  obtain ⟨m, hm, -⟩ := exists_get?_of_parent? hp
  rw [hm, map_some, hg.handle_eq hm]

theorem induction_inwards (hg : g.Forest) {P : Node → Prop} (step : ∀ {h n}, g.get? h = some n →
      (∀ {k c m}, n.at? k = some c → g.get? c = some m → P m) → P n) (hn : g.get? h = some n) : P n := by
  obtain ⟨l, hl⟩ := hg.rooted hn
  induction hd : g.cells.size - l.length using Nat.strongRecOn generalizing h n l with
  | _ d ih =>
    refine step hn fun {k c m} hc hm => ?_
    obtain ⟨m', hm', hp, -⟩ := hg.exists_child hn hc
    rw [hm] at hm'
    cases hm'
    have hpath : g.Path c (c :: l) := .up (by rw [parent?_of_get? hm, hp]) hl
    have hlen := hpath.length_le
    rw [length_cons] at hlen
    exact ih (g.cells.size - (c :: l).length) (by rw [length_cons]; omega) hm _ hpath rfl

theorem induction_children (hg : g.Forest) {P : Node → Prop}
    (step : ∀ {n}, g.get? n.handle = some n → (∀ c ∈ g.childrenOf n, P c) → P n)
    (hn : g.get? h = some n) : P n := by
  refine hg.induction_inwards (fun {h n} hn ih => ?_) hn
  have hh := hg.handle_eq hn
  subst hh
  refine step hn fun c hc => ?_
  obtain ⟨hget, p, hp, ho⟩ := (hg.mem_childrenOf_iff hn).mp hc
  obtain ⟨m, hm, hat, -⟩ := hg.exists_owner hget hp
  rw [ho, hn] at hm
  cases hm
  exact ih hat hget

theorem subtreeWithin_congr (hg : g.Forest) (hn : g.get? h = some n) (hl : g.Path h l) {f f' : Nat}
    (hf : g.cells.size ≤ f + l.length) (hf' : g.cells.size ≤ f' + l.length) :
    g.subtreeWithin f n = g.subtreeWithin f' n := by
  -- a walk that is at its end sees no children, since they would have longer paths
  have hnil : ∀ {h n l}, g.get? h = some n → g.Path h l → g.cells.size ≤ l.length → g.childrenOf n = [] := by
    intro h n l hn hl hlen
    refine List.eq_nil_iff_forall_not_mem.mpr fun c hc => ?_
    have := (hg.path_of_mem_childrenOf hn hl hc).2.length_le
    rw [length_cons] at this
    omega
  induction f generalizing h n l f' with
  | zero =>
    cases f' with
    | zero => rfl
    | succ f' => rw [subtreeWithin, subtreeWithin, hnil hn hl (by omega), flatMap_nil]
  | succ f ih =>
    cases f' with
    | zero => rw [subtreeWithin, subtreeWithin, hnil hn hl (by omega), flatMap_nil]
    | succ f' =>
      rw [subtreeWithin, subtreeWithin]
      refine congrArg (n :: ·) (flatMap_congr fun c hc => ?_)
      obtain ⟨hget, hpath⟩ := hg.path_of_mem_childrenOf hn hl hc
      exact ih hget hpath (by rw [length_cons]; omega) (by rw [length_cons]; omega)

theorem subtreeWithin_eq (hg : g.Forest) (hn : g.get? h = some n) (fuel : Nat)
    (hfuel : g.cells.size ≤ fuel) : g.subtreeWithin fuel n = g.subtree n := by
  obtain ⟨l, hl⟩ := hg.rooted hn
  exact hg.subtreeWithin_congr hn hl (by omega) (by unfold reach; omega)

theorem subtree_eq (hg : g.Forest) (hn : g.get? h = some n) :
    g.subtree n = n :: (g.childrenOf n).flatMap g.subtree := by
  rw [← hg.subtreeWithin_eq hn (g.reach + 1) (by unfold reach; omega)]
  rfl

theorem mem_subtree_iff (hg : g.Forest) {m : Node} (hn : g.get? h = some n) :
    m ∈ g.subtree n ↔ g.get? m.handle = some m ∧ g.Within m.handle h := by
  have hh := hg.handle_eq hn
  subst hh
  refine hg.induction_children (P := fun n => m ∈ g.subtree n
    ↔ g.get? m.handle = some m ∧ g.Within m.handle n.handle) (fun {n} hn ih => ?_) hn
  rw [hg.subtree_eq hn, mem_cons, mem_flatMap]
  constructor
  · rintro (rfl | ⟨c, hc, hm⟩)
    · exact ⟨hn, hg.within_self hn⟩
    · obtain ⟨hget, p, hp, ho⟩ := (hg.mem_childrenOf_iff hn).mp hc
      obtain ⟨hmget, hw⟩ := (ih c hc).mp hm
      refine ⟨hmget, hw.trans (within_of_parent (by rw [parent?_of_get? hget, hp]) ?_)⟩
      rw [ho]
      exact hg.within_self hn
  · rintro ⟨hm, hw⟩
    by_cases hne : m.handle = n.handle
    · rw [hne, hn] at hm
      exact .inl (Option.some.inj hm).symm
    · obtain ⟨x, p, hp, ho, hwx⟩ := hw.exists_child hne
      obtain ⟨c, hc, hcp⟩ := exists_get?_of_parent? hp
      have hch := hg.handle_eq hc
      subst hch
      have hmem := (hg.mem_childrenOf_iff hn).mpr ⟨hc, p, hcp, ho⟩
      exact .inr ⟨c, hmem, (ih c hmem).mpr ⟨hm, hwx⟩⟩

theorem nodup_subtree (hg : g.Forest) (hn : g.get? h = some n) : ((g.subtree n).map (·.handle)).Nodup := by
  refine hg.induction_children (P := fun n => ((g.subtree n).map (·.handle)).Nodup) (fun {n} hn ih => ?_) hn
  have hchild : ∀ {c}, c ∈ g.childrenOf n → g.get? c.handle = some c
      ∧ ∃ p, g.parent? c.handle = some (some p) ∧ p.owner = n.handle := by
    intro c hc
    obtain ⟨hget, p, hp, ho⟩ := (hg.mem_childrenOf_iff hn).mp hc
    exact ⟨hget, p, by rw [parent?_of_get? hget, hp], ho⟩
  have hwithin : ∀ {c}, c ∈ g.childrenOf n → ∀ {x}, x ∈ (g.subtree c).map (·.handle) → g.Within x c.handle := by
    intro c hc x hx
    obtain ⟨m, hm, rfl⟩ := List.mem_map.mp hx
    exact ((hg.mem_subtree_iff (hchild hc).1).mp hm).2
  rw [hg.subtree_eq hn, map_cons, nodup_cons, map_flatMap, nodup_flatMap]
  refine ⟨fun hmem => ?_, ih, ?_⟩
  · obtain ⟨c, hc, hx⟩ := mem_flatMap.mp hmem
    obtain ⟨-, p, hp, ho⟩ := hchild hc
    exact not_within_owner hp (ho ▸ hwithin hc hx)
  · have hnd : ((g.childrenOf n).map (·.handle)).Nodup := by
      rw [hg.map_childrenOf hn]
      exact hg.nodup_targets hn
    refine (pairwise_map.mp hnd).imp_of_mem fun {c c'} hc hc' hne x hx hx' => hne ?_
    obtain ⟨-, p, hp, ho⟩ := hchild hc
    obtain ⟨-, q, hq, ho'⟩ := hchild hc'
    exact (hwithin hc hx).eq_of_siblings (hwithin hc' hx') hp hq (ho.trans ho'.symm)

theorem descendants_eq (hg : g.Forest) (hn : g.get? h = some n) : g.descendants h = .ok (g.subtree n) := by
  have hnone : (g.subtree n).findSome? g.lostTarget? = none := by
    rw [findSome?_eq_none_iff]
    intro m hm
    exact hg.lostTarget?_eq_none ((hg.mem_subtree_iff hn).mp hm).1
  unfold descendants
  rw [node_eq_ok_iff.mpr hn]
  simp only [bind, Except.bind, hnone]
  rfl

theorem mem_map_subtree_iff (hg : g.Forest) {x : Handle} (hn : g.get? h = some n) :
    x ∈ (g.subtree n).map (·.handle) ↔ g.Within x h := by
  rw [List.mem_map]
  constructor
  · rintro ⟨m, hm, rfl⟩
    exact ((hg.mem_subtree_iff hn).mp hm).2
  · rintro ⟨l, hl, hh⟩
    obtain ⟨m, hm⟩ := hl.exists_get? hl.mem
    have hmx := hg.handle_eq hm
    exact ⟨m, (hg.mem_subtree_iff hn).mpr ⟨hmx.symm ▸ hm, l, hmx.symm ▸ hl, hh⟩, hmx⟩

end Graph.Forest

namespace Graph

theorem map_subtreeWithin_congr {g g' : Graph} {β : Type} (f : Node → β) : ∀ {fuel : Nat} {n n' : Node},
    f n' = f n → n'.targets = n.targets →
    (∀ m ∈ g.subtreeWithin fuel n, ∀ c ∈ m.targets,
      (g'.get? c).map (fun k => (f k, k.targets)) = (g.get? c).map fun k => (f k, k.targets)) →
    (g'.subtreeWithin fuel n').map f = (g.subtreeWithin fuel n).map f := by
  intro fuel
  induction fuel with
  | zero =>
    intro n n' hf _ _
    rw [subtreeWithin, subtreeWithin, map_singleton, map_singleton, hf]
  | succ fuel ih =>
    intro n n' hf htargets hsame
    rw [subtreeWithin] at hsame
    have hchild : ∀ c ∈ n.targets, ((g'.get? c).toList.flatMap (g'.subtreeWithin fuel)).map f
        = ((g.get? c).toList.flatMap (g.subtreeWithin fuel)).map f := by
      intro c hc
      have hget := hsame n mem_cons_self c hc
      cases hm : g.get? c with
      | none =>
        rw [hm, map_none, map_eq_none_iff] at hget
        rw [hget]
        rfl
      | some m =>
        rw [hm, map_some, map_eq_some_iff] at hget
        obtain ⟨m', hm', heq⟩ := hget
        rw [Prod.mk.injEq] at heq
        rw [hm', toList_some, toList_some, flatMap_singleton, flatMap_singleton]
        refine ih heq.1 heq.2 fun k hk => hsame k (mem_cons_of_mem _ ?_)
        exact mem_flatMap.mpr ⟨m, mem_filterMap.mpr ⟨c, hc, hm⟩, hk⟩
    rw [subtreeWithin, subtreeWithin, map_cons, map_cons, hf]
    unfold childrenOf
    rw [htargets, filterMap_eq_flatMap_toList, filterMap_eq_flatMap_toList,
      flatMap_assoc, flatMap_assoc, map_flatMap, map_flatMap]
    exact congrArg _ (flatMap_congr hchild)

end Graph

end NqcBlocks
