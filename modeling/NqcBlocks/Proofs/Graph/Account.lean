import NqcBlocks.Proofs.Graph.Walk

/-!
# What the events of a change say

A listener follows a graph by the events alone. `Graph.Accounts` says when events tell all there is to
know about a change: which blocks came and went, where blocks went that are plugged in elsewhere, and
which field, remark or flag was written. What is said about a block that stays is `Event.Tell`; what
has no event stays as it is.
-/

namespace NqcBlocks

open List Graph

/-- **What events tell about a block that stays**; `n` is the block before and `n'` the block after. -/
structure Event.Tell (events : List Event) (n n' : Node) : Prop where
  kind : n'.kind = n.kind
  named : ∀ v ∈ events, v.handle = n.handle → v.kind = n.kind
  moved : n'.parent ≠ n.parent → (events.filter fun v => v.what = .move ∧ v.handle = n.handle)
    = [Graph.eventOf .move n (n'.parent.map (·.connection))]
  field : ∀ k, n'.fields.get? k ≠ n.fields.get? k → Graph.eventOf .change n k ∈ events
  comment : n'.comment ≠ n.comment → Graph.eventOf .change n "comment" ∈ events
  enabled : n'.enabled ≠ n.enabled → Graph.eventOf .change n "enabled" ∈ events
  kept : (∀ v ∈ events, v.handle ≠ n.handle) → n'.bare = n.bare ∧ n'.parent = n.parent

namespace Event.Tell

variable {events : List Event} {n n' : Node}

theorem of_bare (hb : n'.bare = n.bare) (hnamed : ∀ v ∈ events, v.handle = n.handle → v.kind = n.kind)
    (hmoved : n'.parent ≠ n.parent → (events.filter fun v => v.what = .move ∧ v.handle = n.handle)
      = [eventOf .move n (n'.parent.map (·.connection))]) : Event.Tell events n n' := by
  have hkeep : ∀ {β : Type} (f : Node → β), (∀ m, f m.bare = f m) → f n' = f n := fun f hf => by
    rw [← hf n', hb, hf]
  refine ⟨hkeep Node.kind fun _ => rfl, hnamed, hmoved, fun k hk => ?_, fun hc => ?_, fun he => ?_,
    fun hnone => ⟨hb, Decidable.byContradiction fun hp => ?_⟩⟩
  · exact absurd (hkeep (fun m => m.fields.get? k) fun _ => rfl) hk
  · exact absurd (hkeep Node.comment fun _ => rfl) hc
  · exact absurd (hkeep Node.enabled fun _ => rfl) he
  · obtain ⟨hv, hh⟩ := mem_filter.mp ((hmoved hp).symm ▸ mem_singleton_self _)
    exact hnone _ hv (of_decide_eq_true hh).2

theorem refl (n : Node) (hnone : ∀ v ∈ events, v.handle ≠ n.handle) : Event.Tell events n n :=
  .of_bare rfl (fun v hv hh => absurd hh (hnone v hv)) fun h => absurd rfl h

theorem of_change {name : String} (hkind : n'.kind = n.kind) (hparent : n'.parent = n.parent)
    (hfield : ∀ {k}, n'.fields.get? k ≠ n.fields.get? k → k = name)
    (hcomment : n'.comment ≠ n.comment → name = "comment")
    (henabled : n'.enabled ≠ n.enabled → name = "enabled") : Event.Tell [eventOf .change n name] n n' := by
  refine ⟨hkind, fun v hv _ => ?_, fun hp => absurd hparent hp, fun k hk => ?_, fun hc => ?_, fun he => ?_,
    fun hnone => absurd rfl (hnone _ (mem_singleton_self _))⟩
  · rw [mem_singleton.mp hv]
    rfl
  · rw [hfield hk]
    exact mem_singleton_self _
  · rw [hcomment hc]
    exact mem_singleton_self _
  · rw [henabled he]
    exact mem_singleton_self _

end Event.Tell

namespace Graph

/-- **Events account for a change of a graph.** -/
structure Accounts (g : Graph) (events : List Event) (g' : Graph) : Prop where
  created : ∃ new : List Node, (events.filter fun v => v.what = .create) = new.map (eventOf .create ·)
    ∧ (new.map (·.handle)).Nodup
    ∧ ∀ n, n ∈ new ↔ g'.get? n.handle = some n ∧ g.get? n.handle = none
  deleted : ∃ roots : List Node, (events.filter fun v => v.what = .delete)
      = (roots.flatMap g.subtree).map (eventOf .delete ·)
    ∧ ((roots.flatMap g.subtree).map (·.handle)).Nodup
    ∧ ∀ n, n ∈ roots.flatMap g.subtree ↔ g.get? n.handle = some n ∧ g'.get? n.handle = none
  stays : ∀ {h n n'}, g.get? h = some n → g'.get? h = some n' → Event.Tell events n n'

namespace Accounts

variable {g g' : Graph} {events : List Event}

theorem filter_eq_nil {what : EventKind} (h : ∀ v ∈ events, v.what ≠ what) :
    (events.filter fun v => v.what = what) = [] :=
  filter_eq_nil_iff.mpr fun v hv => by simpa using h v hv

theorem push (hg : g.Forest) {n : Node} (hn : n.handle = g.nextHandle) :
    g.Accounts [eventOf .create n] (g.push n) := by
  have hfresh : g.get? g.nextHandle = none := Option.eq_none_iff_forall_ne_some.mpr fun m hm =>
    Nat.lt_irrefl _ (lt_nextHandle_of_get? hm).2
  refine ⟨⟨[n], rfl, nodup_singleton _, fun m => ?_⟩, ⟨[], rfl, nodup_nil, fun m => ?_⟩, ?_⟩
  · rw [mem_singleton, get?_push]
    constructor
    · rintro rfl
      rw [hn, if_pos rfl]
      exact ⟨rfl, hfresh⟩
    · rintro ⟨hm, hnone⟩
      split at hm
      · exact (Option.some.inj hm).symm
      · cases hnone.symm.trans hm
  · refine iff_of_false not_mem_nil ?_
    rintro ⟨hm, hnone⟩
    rw [get?_push, if_neg (Nat.ne_of_lt (lt_nextHandle_of_get? hm).2), hm] at hnone
    cases hnone
  · intro h m m' hm hm'
    have hlt := (lt_nextHandle_of_get? hm).2
    rw [get?_push, if_neg (Nat.ne_of_lt hlt), hm] at hm'
    cases hm'
    refine .refl m fun v hv => ?_
    rw [mem_singleton.mp hv, hg.handle_eq hm]
    exact fun e => Nat.ne_of_lt hlt (e.symm.trans hn)

theorem of_same (hsame : ∀ h, g'.get? h = none ↔ g.get? h = none)
    (hwhat : ∀ v ∈ events, v.what ≠ .create ∧ v.what ≠ .delete)
    (hstays : ∀ {h n n'}, g.get? h = some n → g'.get? h = some n' → Event.Tell events n n') :
    g.Accounts events g' where
  created := by
    refine ⟨[], filter_eq_nil fun v hv => (hwhat v hv).1, nodup_nil, fun n => ?_⟩
    refine iff_of_false not_mem_nil fun ⟨hn, hnone⟩ => ?_
    cases ((hsame _).mpr hnone).symm.trans hn
  deleted := by
    refine ⟨[], filter_eq_nil fun v hv => (hwhat v hv).2, nodup_nil, fun n => ?_⟩
    refine iff_of_false not_mem_nil fun ⟨hn, hnone⟩ => ?_
    cases ((hsame _).mp hnone).symm.trans hn
  stays := hstays

theorem modify (hg : g.Forest) {h : Handle} {n : Node} (hn : g.get? h = some n) {f : Node → Node}
    {name : String} (htell : Event.Tell [eventOf .change n name] n (f n)) :
    g.Accounts [eventOf .change n name] (g.modify h f) := by
  refine of_same (fun x => ?_) (fun v hv => ?_) fun {x m m'} hm hm' => ?_
  · rw [get?_modify]
    split
    · rw [Option.map_eq_none_iff]
    · rfl
  · rw [mem_singleton.mp hv]
    exact ⟨EventKind.noConfusion, EventKind.noConfusion⟩
  · rw [get?_modify, hm] at hm'
    split at hm'
    · next hx =>
      rw [← hx, hm] at hn
      cases hn
      cases hm'
      exact htell
    · next hx =>
      cases hm'
      refine .refl m fun v hv => ?_
      rw [mem_singleton.mp hv, hg.handle_eq hm]
      exact fun e => hx (e.symm.trans (hg.handle_eq hn))

theorem of_moves (hg : g.Forest) (ha : g.Alike g') (hwhat : ∀ v ∈ events, v.what = .move)
    (hnamed : ∀ v ∈ events, ∀ n, g.get? v.handle = some n → v.kind = n.kind)
    (hmoved : ∀ {n}, g.get? n.handle = some n → g'.parent? n.handle ≠ g.parent? n.handle →
      ∃ q, g'.parent? n.handle = some q ∧ (events.filter fun v => v.handle = n.handle)
        = [eventOf .move n (q.map (·.connection))]) :
    g.Accounts events g' := by
  refine of_same (fun x => ⟨ha.symm.get?_eq_none, ha.get?_eq_none⟩)
    (fun v hv => by simp [hwhat v hv]) fun {x n n'} hn hn' => ?_
  obtain ⟨m, hm, hbare⟩ := ha.exists_get? hn
  cases hn'.symm.trans hm
  have hh := hg.handle_eq hn
  subst hh
  refine .of_bare hbare (fun v hv he => hnamed v hv n (he ▸ hn)) fun hp => ?_
  obtain ⟨q, hq, hfilter⟩ := hmoved hn (by
    rw [parent?_of_get? hn, parent?_of_get? hn']
    exact fun e => hp (Option.some.inj e))
  rw [parent?_of_get? hn', Option.some.injEq] at hq
  subst hq
  rw [← hfilter]
  refine filter_congr fun v hv => ?_
  simp [hwhat v hv]

theorem of_removed (hg : g.Forest) (roots : List Node) (hnd : ((roots.flatMap g.subtree).map (·.handle)).Nodup)
    (hroots : ∀ r ∈ roots, g.get? r.handle = some r)
    (hgone : ∀ x, g'.get? x = none ↔ x ∈ (roots.flatMap g.subtree).map (·.handle) ∨ g.get? x = none)
    (hstays : ∀ {h n n'}, g.get? h = some n → g'.get? h = some n' → n'.bare = n.bare ∧ n'.parent = n.parent) :
    g.Accounts ((roots.flatMap g.subtree).map (eventOf .delete ·)) g' := by
  have hlive : ∀ {n}, n ∈ roots.flatMap g.subtree → g.get? n.handle = some n := fun hn => by
    obtain ⟨r, hr, hn⟩ := mem_flatMap.mp hn
    exact ((hg.mem_subtree_iff (hroots r hr)).mp hn).1
  have hwhat : ∀ v ∈ (roots.flatMap g.subtree).map (eventOf .delete ·), v.what = .delete := by
    intro v hv
    obtain ⟨n, -, rfl⟩ := mem_map.mp hv
    rfl
  refine ⟨⟨[], filter_eq_nil fun v hv => by simp [hwhat v hv], nodup_nil, fun n => ?_⟩,
    ⟨roots, List.filter_eq_self.mpr fun v hv => by simp [hwhat v hv], hnd, fun n => ?_⟩, ?_⟩
  · refine iff_of_false not_mem_nil fun ⟨hn, hnone⟩ => ?_
    cases ((hgone _).mpr (.inr hnone)).symm.trans hn
  · constructor
    · exact fun hn => ⟨hlive hn, (hgone _).mpr (.inl (mem_map_of_mem hn))⟩
    · rintro ⟨hn, hnone⟩
      rcases (hgone _).mp hnone with hmem | hnone
      · obtain ⟨m, hm, hh⟩ := mem_map.mp hmem
        cases (hh ▸ hlive hm).symm.trans hn
        exact hm
      · cases hnone.symm.trans hn
  · intro h n n' hn hn'
    obtain ⟨hbare, hparent⟩ := hstays hn hn'
    have hne : ∀ v ∈ (roots.flatMap g.subtree).map (eventOf .delete ·), v.handle ≠ n.handle := by
      intro v hv e
      obtain ⟨d, hd, rfl⟩ := mem_map.mp hv
      have hd' : h ∈ (roots.flatMap g.subtree).map (·.handle) := by
        rw [← hg.handle_eq hn]
        exact e ▸ mem_map_of_mem (f := (·.handle)) hd
      cases ((hgone h).mpr (.inl hd')).symm.trans hn'
    exact .of_bare hbare (fun v hv e => absurd e (hne v hv)) fun hp => absurd hparent hp

end Accounts

end Graph

end NqcBlocks
