import NqcBlocks.Proofs.Graph.Account

/-!
# Edits keep a forest

What one edit does to a forest. `Graph.LeadsTo` is the relation between a graph and a later state of
it: the later state is a forest, handles go on from where they were, and a handle that was issued and
stands for nothing stays that way. `Graph.Done` says all there is to say about an edit that is not
refused: it leads from a forest to the graph it leaves, it comes upon no block that is gone, and its
notices account for the change. There is one lemma for each kind of edit.
-/

namespace NqcBlocks

open List Option

variable {g g' : Graph} {c child h : Handle} {m n p : Node} {e : Edit} {spec : BlockSpec}
  {f : Node → Node} {name slot : String} {position : ChainPosition}

theorem Node.not_isStatement_of_isValue (h : n.isValue = true) : ¬ n.isStatement = true := by
  intro hst
  unfold Node.isValue BlockSpec.isValue at h
  unfold Node.isStatement BlockSpec.isStatement at hst
  cases hs : Builtin.spec? n.kind with
  | none =>
    rw [hs] at h
    cases h
  | some spec =>
    rw [hs, any_some, beq_iff_eq] at h hst
    rw [h] at hst
    cases hst

theorem Node.isStatement_of_bare {n' : Node} (hb : n'.bare = n.bare) : n'.isStatement = n.isStatement := by
  have hsame : n'.bare.isStatement = n.bare.isStatement := by rw [hb]
  exact hsame

namespace Graph

/-! ## Later states of a graph -/

/-- **A later state of a graph**: a forest that has issued no handle again. -/
structure LeadsTo (g g' : Graph) : Prop where
  forest : g'.Forest
  next_le : g.nextHandle ≤ g'.nextHandle
  gone : ∀ {h}, h < g.nextHandle → g.get? h = none → g'.get? h = none

namespace LeadsTo

variable {g'' : Graph}

theorem refl (hg : g.Forest) : g.LeadsTo g := ⟨hg, Nat.le_refl _, fun _ hn => hn⟩

theorem trans (h : g.LeadsTo g') (h' : g'.LeadsTo g'') : g.LeadsTo g'' where
  forest := h'.forest
  next_le := Nat.le_trans h.next_le h'.next_le
  gone := fun hlt hn => h'.gone (Nat.lt_of_lt_of_le hlt h.next_le) (h.gone hlt hn)

theorem of_alike (ha : g.Alike g') (hf : g'.Forest) : g.LeadsTo g' :=
  ⟨hf, Nat.le_of_eq ha.next.symm, fun _ hn => ha.get?_eq_none hn⟩

theorem of_modify (hf : (g.modify h f).Forest) : g.LeadsTo (g.modify h f) where
  forest := hf
  next_le := Nat.le_of_eq (g.nextHandle_modify h f).symm
  gone := by
    intro x _ hn
    rw [get?_modify, hn]
    split <;> rfl

end LeadsTo

/-- **A notice is sent early** if it says that a block stands on its own while a place still names the
block. With the place emptied the graph is a forest. -/
structure SentEarly (t : Notice) (p : Place) : Prop where
  what : t.event.what = .move ∧ t.event.name = none
  free : t.graph.parent? t.event.handle = some none
  at? : t.graph.at? p = some t.event.handle
  forest : (t.graph.modify p.owner (·.unplug p.connection)).Forest

/-- **What an edit does to a forest.** Notices are sent when everything is done, but for one about what
was at the place `early`. -/
structure Done (g : Graph) (early : Option Place) (e : Edit) : Prop extends g.LeadsTo e.graph where
  lost : e.lost = none
  accounts : g.Accounts (e.notices.map (·.event)) e.graph
  told : ∀ t ∈ e.notices, t.graph = e.graph ∨ ∃ p ∈ early, SentEarly t p

theorem exists_of_bind_eq_ok {ε α β : Type} {x : Except ε α} {f : α → Except ε β} {b : β}
    (h : x >>= f = .ok b) : ∃ a, x = .ok a ∧ f a = .ok b := by
  cases x with
  | error e => cases h
  | ok a => exact ⟨a, rfl, h⟩

theorem spec_eq_ok_iff (hg : g.Forest) : g.spec n = .ok spec ↔ Builtin.spec? n.kind = some spec := by
  have hspec : g.spec? n = Builtin.spec? n.kind := by
    unfold Graph.spec?
    rw [hg.builtin, Catalog.spec?_builtin]
  unfold Graph.spec
  rw [hspec]
  cases Builtin.spec? n.kind with
  | none => simp
  | some s => simp

theorem Forest.exists_spec_of_isStatement (hg : g.Forest) (hst : n.isStatement = true) :
    ∃ spec, g.spec n = .ok spec ∧ spec.isStatement = true := by
  unfold Node.isStatement at hst
  cases hspec : Builtin.spec? n.kind with
  | none =>
    rw [hspec] at hst
    cases hst
  | some spec =>
    rw [hspec] at hst
    exact ⟨spec, (spec_eq_ok_iff hg).mpr hspec, hst⟩

/-! ## Creating a block -/

theorem at?_eq_none_of_bare (hnext : n.next = none) (hv : ∀ e ∈ n.valueSlots, e.2.target = none)
    (hs : ∀ e ∈ n.statementSlots, e.2 = none) (k : String) : n.at? k = none := by
  unfold Node.at?
  split
  · exact hnext
  · cases hget : n.valueSlots.get? k with
    | some s => exact hv _ (Table.mem_of_get? hget)
    | none =>
      cases hget' : n.statementSlots.get? k with
      | none => rfl
      | some t =>
        have := hs _ (Table.mem_of_get? hget')
        exact congrArg Option.join (congrArg some this)

theorem Forest.create (hg : g.Forest) {tag : String} {i : BlockInit}
    (he : g.create tag i = .ok (h, e)) : g.Done none e ∧ h = g.nextHandle := by
  unfold Graph.create at he
  rw [hg.builtin, Catalog.spec?_builtin] at he
  split at he
  · cases he
  · next spec hspec =>
    split at he
    · cases he
    · next n hn =>
      cases he
      obtain ⟨hc, hh, hp, hnext, hv, hs⟩ := newNode_conforms hspec hn
      refine ⟨⟨⟨hg.push hc hh hp (at?_eq_none_of_bare hnext hv hs), ?_, ?_⟩, rfl, .push hg hh, by simp⟩, hh⟩
      · rw [nextHandle_push]
        exact Nat.le_succ _
      · intro x hx hn
        rw [get?_push, if_neg (Nat.ne_of_lt hx)]
        exact hn

/-! ## Deleting blocks -/

theorem retireAll_eq : ∀ {doomed : List Node} {g : Graph}, (doomed.map (·.handle)).Nodup →
    (∀ d ∈ doomed, g.contains d.handle = true) → ∃ g', g.retireAll doomed = (g', none)
      ∧ g'.catalog = g.catalog ∧ g'.nextHandle = g.nextHandle
      ∧ ∀ h, g'.get? h = if h ∈ doomed.map (·.handle) then none else g.get? h := by
  intro doomed
  induction doomed with
  | nil =>
    intro g _ _
    exact ⟨g, rfl, rfl, rfl, fun h => (if_neg (not_mem_nil)).symm⟩
  | cons d doomed ih =>
    intro g hnd hlive
    rw [map_cons, nodup_cons] at hnd
    have hstay : ∀ d' ∈ doomed, (g.retire d.handle).contains d'.handle = true := by
      intro d' hd'
      have hne : d'.handle ≠ d.handle := fun e => hnd.1 (e ▸ List.mem_map_of_mem hd')
      obtain ⟨n, hn⟩ := contains_iff.mp (hlive d' (mem_cons_of_mem _ hd'))
      exact contains_iff.mpr ⟨n, by rw [get?_retire, if_neg hne]; exact hn⟩
    obtain ⟨g', hg', hcat, hnext, hget⟩ := ih hnd.2 hstay
    refine ⟨g', ?_, hcat.trans (g.catalog_retire _), hnext.trans (g.nextHandle_retire _), ?_⟩
    · rw [retireAll, if_pos (hlive d mem_cons_self)]
      exact hg'
    · intro h
      rw [hget, get?_retire]
      by_cases hd : h = d.handle
      · simp only [map_cons, mem_cons, hd, if_true, true_or, ite_self]
      · simp only [map_cons, mem_cons, hd, if_false, false_or]

theorem Forest.map_subtree_detach (hg : g.Forest) (hn : g.get? h = some n) {β : Type} {f : Node → β}
    (hf : ∀ m p, f { m with parent := p } = f m) :
    ((g.detach n).subtree { n with parent := none }).map f = (g.subtree n).map f := by
  have hreach : (g.detach n).reach = g.reach := (alike_detach g n).next
  unfold subtree
  rw [hreach]
  refine map_subtreeWithin_congr f (hf n none) rfl fun m hm c hc => ?_
  by_cases hch : c = h
  · rw [hch, hg.get?_detach_self hn, hn, map_some, map_some, hf]
    rfl
  · -- the block that holds the deleted one is not below it
    obtain ⟨hmget, hwithin⟩ := (hg.mem_subtree_iff hn).mp hm
    obtain ⟨q, hq, ho⟩ := (hg.mem_targets_iff hmget).mp hc
    rw [← ho, ← within_iff_of_parent hq hch] at hwithin
    rw [hg.get?_detach hn hch]
    cases hk : g.get? c with
    | none => rfl
    | some k =>
      have hsame : k.released n.parent = k := by
        cases hp : n.parent with
        | none => rfl
        | some p =>
          refine if_neg fun e => not_within_owner (by rw [parent?_of_get? hn, hp]) ?_
          rw [e, hg.handle_eq hk]
          exact hwithin
      rw [map_some, hsame]

theorem Forest.delete_eq (hg : g.Forest) (hn : g.get? h = some n) : ∃ e, g.delete h = .ok e ∧ e.lost = none
      ∧ e.graph.catalog = g.catalog ∧ e.graph.nextHandle = g.nextHandle
      ∧ (∀ x, e.graph.get? x = if x ∈ (g.subtree n).map (·.handle) then none
        else (g.get? x).map (·.released n.parent))
      ∧ e.notices = (g.subtree n).map fun d => ⟨eventOf .delete d, e.graph⟩ := by
  have hg₁ := hg.detach hn
  have hn₁ := hg.get?_detach_self hn
  have hsub : ((g.detach n).subtree { n with parent := none }).map (·.handle)
      = (g.subtree n).map (·.handle) := hg.map_subtree_detach hn fun _ _ => rfl
  obtain ⟨g', hretire, hcat, hnext, hget⟩ := retireAll_eq (hg₁.nodup_subtree hn₁)
    (fun d hd => contains_iff.mpr ⟨d, ((hg₁.mem_subtree_iff hn₁).mp hd).1⟩)
  unfold Graph.delete
  simp only [node_eq_ok_iff.mpr hn, hg.checkPlace_eq_ok hn, hg₁.descendants_eq hn₁, hretire, bind, Except.bind]
  refine ⟨_, rfl, rfl, hcat.trans (alike_detach g n).catalog, hnext.trans (alike_detach g n).next,
    fun x => ?_, hg.map_subtree_detach hn (f := fun d => Notice.mk (eventOf .delete d) g') fun _ _ => rfl⟩
  rw [hget, hsub]
  split
  · rfl
  · next hx =>
    refine hg.get?_detach hn ?_
    rintro rfl
    exact hx ((hg.mem_map_subtree_iff hn).mpr (hg.within_self hn))

theorem Forest.delete (hg : g.Forest) (he : g.delete h = .ok e) : g.Done none e := by
  obtain ⟨n, hn, -⟩ := exists_of_bind_eq_ok he
  rw [node_eq_ok_iff] at hn
  obtain ⟨e', he', hlost, hcat, hnext, hget, hnotices⟩ := hg.delete_eq hn
  cases he.symm.trans he'
  have hself : h ∈ (g.subtree n).map (·.handle) := (hg.mem_map_subtree_iff hn).mpr (hg.within_self hn)
  have hforest : e.graph.Forest := by
    refine (hg.detach hn).delete_of_closed (fun x => x ∈ (g.subtree n).map (·.handle))
      (hcat.trans (alike_detach g n).catalog.symm) (fun hx => (hget _).trans (if_pos hx)) ?_ ?_
    · intro x hx
      rw [hget, if_neg hx, hg.get?_detach hn fun e : x = h => hx (e ▸ hself)]
    · -- a block and what it is plugged into go together
      intro x p hp
      rw [hg.parent?_detach hn] at hp
      split at hp
      · cases hp
      · next hx => rw [hg.mem_map_subtree_iff hn, hg.mem_map_subtree_iff hn, within_iff_of_parent hp hx]
  refine ⟨⟨hforest, Nat.le_of_eq hnext.symm, fun {x} _ hx => ?_⟩, hlost, ?_, fun t ht => ?_⟩
  · rw [hget, hx]
    exact ite_self _
  · have haccounts := @Accounts.of_removed g e.graph hg [n]
    rw [flatMap_singleton] at haccounts
    rw [hnotices, List.map_map]
    refine haccounts (hg.nodup_subtree hn) (fun r hr => ?_) (fun x => ?_) fun {x m m'} hm hm' => ?_
    · rw [mem_singleton.mp hr, hg.handle_eq hn, hn]
    · rw [hget]
      split
      · next hx => exact iff_of_true rfl (.inl hx)
      · next hx => rw [map_eq_none_iff, or_iff_right hx]
    · rw [hget, hm] at hm'
      split at hm'
      · cases hm'
      · cases hm'
        exact m.released_frame n.parent
  · rw [hnotices] at ht
    obtain ⟨d, -, rfl⟩ := List.mem_map.mp ht
    exact .inl rfl

/-! ## Fields and flags -/

theorem Done.of_modify (hg : g.Forest) (hn : g.get? h = some n) (hf : g.LeadsTo (g.modify h f))
    (htell : Event.Tell [eventOf .change n name] n (f n)) :
    g.Done none ⟨g.modify h f, [⟨eventOf .change n name, g.modify h f⟩], none⟩ :=
  ⟨hf, rfl, .modify hg hn htell, by simp⟩

theorem get?_of_admitFields {fields fields' : Table Json} {value : Json}
    (h : admitFields spec fields [(name, value)] = .ok fields') {k : String}
    (hk : fields'.get? k ≠ fields.get? k) : k = name := by
  rw [admitFields] at h
  split at h
  · cases h
  split at h
  · cases h
  cases h
  rw [Table.get?_insert] at hk
  exact Decidable.byContradiction fun hne => hk (if_neg (Ne.symm hne))

theorem Forest.setField (hg : g.Forest) {value : Json} (he : g.setField h name value = .ok e) : g.Done none e := by
  unfold Graph.setField at he
  obtain ⟨n, hn, he⟩ := exists_of_bind_eq_ok he
  obtain ⟨spec, hspec, he⟩ := exists_of_bind_eq_ok he
  obtain ⟨fields, hfields, he⟩ := exists_of_bind_eq_ok he
  rw [node_eq_ok_iff] at hn
  rw [spec_eq_ok_iff hg] at hspec
  cases he
  refine .of_modify hg hn (f := fun n => { n with fields }) (.of_modify (hg.modify h ?_ ?_ ?_))
    (.of_change rfl rfl (get?_of_admitFields hfields) (absurd rfl) (absurd rfl))
  · exact fun _ => ⟨rfl, fun _ => rfl⟩
  · exact fun _ => ⟨rfl, rfl, fun _ => rfl⟩
  intro n' spec' hn' hc
  rw [hn] at hn'
  cases hn'
  have hs : spec' = spec := Option.some.inj (hc.known.symm.trans hspec)
  subst hs
  obtain ⟨hnames, hheld⟩ := admitFields_holdsFields (Builtin.nodup_fields hspec) ⟨hc.fieldNames, hc.held⟩ hfields
  exact ⟨hc.known, hc.sockets, hnames, hheld⟩

theorem Forest.remark (hg : g.Forest) (h : Handle) (hf : ∀ n, f n = { n with
      comment := (f n).comment, enabled := (f n).enabled, warning := (f n).warning }) :
    g.LeadsTo (g.modify h f) := by
  refine .of_modify (hg.modify h (fun n => ?_) (fun n => ?_) (fun {n spec} _ hc => ?_))
  · rw [hf n]
    exact ⟨rfl, fun _ => rfl⟩
  · rw [hf n]
    exact ⟨rfl, rfl, fun _ => rfl⟩
  · rw [hf n]
    exact ⟨hc.known, hc.sockets, hc.fieldNames, hc.held⟩

theorem Forest.setComment (hg : g.Forest) {comment : Json} (he : g.setComment h comment = .ok e) : g.Done none e := by
  unfold Graph.setComment at he
  obtain ⟨n, hn, he⟩ := exists_of_bind_eq_ok he
  cases he
  exact .of_modify hg (node_eq_ok_iff.mp hn) (f := fun n => { n with comment := comment.truthy? })
    (hg.remark h fun _ => rfl) (.of_change rfl rfl (absurd rfl) (fun _ => rfl) (absurd rfl))

theorem Forest.setEnabled (hg : g.Forest) {enabled : Bool} (he : g.setEnabled h enabled = .ok e) : g.Done none e := by
  unfold Graph.setEnabled at he
  obtain ⟨n, hn, he⟩ := exists_of_bind_eq_ok he
  cases he
  exact .of_modify hg (node_eq_ok_iff.mp hn) (f := fun n => { n with enabled })
    (hg.remark h fun _ => rfl) (.of_change rfl rfl (absurd rfl) (absurd rfl) fun _ => rfl)

theorem Forest.setFlags (hg : g.Forest) (h : Handle) (enabled : Bool) (warning : Option String) :
    g.LeadsTo (g.setFlags h enabled warning) :=
  hg.remark h fun _ => rfl

/-! ## Values -/

theorem get?_settle {p : Place} (hm : g.get? p.owner = some m) (hf : f m = m.put p.connection (some c)) (x : Handle) :
    ((g.modify p.owner f).settle c p).get? x = (g.attach c p).get? x := by
  have hfirst : ∀ y, (g.modify p.owner f).get? y = (g.modify p.owner (·.put p.connection (some c))).get? y := by
    intro y
    rw [get?_modify, get?_modify]
    split
    · next e => rw [e, hm, map_some, map_some, hf]
    · rfl
  unfold settle attach relink
  rw [get?_modify _ c, get?_modify _ c, hfirst]

structure Agrees (g g' : Graph) : Prop where
  catalog : g'.catalog = g.catalog
  next : g'.nextHandle = g.nextHandle
  get? : ∀ h, g'.get? h = g.get? h

namespace Agrees

theorem parent? (ha : g.Agrees g') (h : Handle) : g'.parent? h = g.parent? h := by
  unfold Graph.parent?
  rw [ha.get?]

theorem at? (ha : g.Agrees g') (p : Place) : g'.at? p = g.at? p := by
  unfold Graph.at?
  rw [ha.get?]

theorem alike (ha : g.Agrees g') : g.Alike g' :=
  ⟨ha.catalog, ha.next, fun h => by rw [ha.get?]⟩

theorem forest (ha : g.Agrees g') (hg : g.Forest) : g'.Forest :=
  ha.alike.forest_of_links hg ha.parent? ha.at?

end Agrees

theorem agrees_settle {p : Place} (hm : g.get? p.owner = some m) (hf : f m = m.put p.connection (some c)) :
    (g.attach c p).Agrees ((g.modify p.owner f).settle c p) where
  catalog := by
    unfold settle attach relink
    simp only [catalog_modify]
  next := by
    unfold settle attach relink
    simp only [nextHandle_modify]
  get? := get?_settle hm hf

section Vacate

variable {p : Place} {o : Handle} {l : List Handle}

theorem Forest.notMem_path (hg : g.Forest) (ho : g.at? p = some o) (hl : g.Path p.owner l) : o ∉ l := by
  have hup : g.Path o (o :: l) := .up (hg.linked.mpr ho) hl
  exact (nodup_cons.mp hup.nodup).1

theorem Forest.vacate (hg : g.Forest) (ho : g.at? p = some o) (hm : g.get? o = some m)
    (hl : g.Path p.owner l) : (g.detach m).at? p = none ∧ (g.detach m).Path p.owner l := by
  refine ⟨?_, (hg.path_detach hm hl).1 (hg.notMem_path ho hl)⟩
  rw [hg.at?_detach hm, if_pos (hg.parent_of_at? ho hm)]

theorem Forest.ne_of_at? (hg : g.Forest) (hn : g.get? c = some n) (htop : n.parent = none)
    (ho : g.at? p = some o) : c ≠ o := by
  rintro rfl
  cases htop.symm.trans (hg.parent_of_at? ho hn)

theorem Forest.replace (hg : g.Forest) (hn : g.get? c = some n) (htop : n.parent = none)
    (ht : g.Takes p c) (hl : g.Path p.owner l) (hc : c ∉ l) (ho : g.at? p = some o)
    (hm : g.get? o = some m) : ((g.detach m).attach c p).Forest := by
  obtain ⟨hempty, hpath⟩ := hg.vacate ho hm hl
  have ha := alike_detach g m
  obtain ⟨n', hn', -⟩ := ha.exists_get? hn
  have htop' : n'.parent = none := by
    have := hg.parent?_detach hm c
    rw [if_neg (hg.ne_of_at? hn htop ho), parent?_of_get? hn, parent?_of_get? hn', htop] at this
    exact Option.some.inj this
  exact (hg.detach hm).attach hn' htop' hempty (ha.takes ht) hpath hc

theorem Forest.replace_of_settled (hg : g.Forest) (hn : g.get? c = some n) (htop : n.parent = none)
    (ht : g.Takes p c) (hl : g.Path p.owner l) (hc : c ∉ l) (ho : g.at? p = some o) (hm : g.get? o = some m) :
    let g' := (g.modify o fun n => { n with parent := none }).attach c p
    g'.Forest ∧ ∀ x, g'.parent? x = if x = c then some (some p) else if x = o then some none else g.parent? x := by
  have hfree : g.Alike (g.modify o fun n => { n with parent := none }) := alike_modify fun _ => rfl
  have hdetach := alike_detach g m
  obtain ⟨n', hn', -⟩ := hfree.exists_get? hn
  obtain ⟨n'', hn'', -⟩ := hdetach.exists_get? hn
  have hparent : ∀ x, ((g.modify o fun n => { n with parent := none }).attach c p).parent? x
      = if x = c then some (some p) else if x = o then some none else g.parent? x := by
    intro x
    rw [parent?_attach hn']
    refine if_congr Iff.rfl rfl ?_
    unfold parent?
    rw [get?_modify]
    by_cases hx : x = o
    · rw [if_pos hx, if_pos hx, hx, hm]
      rfl
    · rw [if_neg hx, if_neg hx]
  refine ⟨Alike.forest_of_links (g := (g.detach m).attach c p) ?_
    (hg.replace hn htop ht hl hc ho hm) (fun x => ?_) (fun x => ?_), hparent⟩
  · exact ((alike_attach _ _ _).symm.trans (hdetach.symm.trans hfree)).trans (alike_attach _ _ _)
  · rw [hparent, parent?_attach hn'', hg.parent?_detach hm]
  · rw [at?_attach (hfree.takes ht), at?_attach (hdetach.takes ht), hg.at?_detach hm,
      at?_modify (f := fun n => { n with parent := none }) (fun _ _ => rfl)]
    by_cases hx : x = p
    · rw [if_pos hx, if_pos hx]
    · rw [if_neg hx, if_neg hx, hg.parent_of_at? ho hm, if_neg fun e => hx (Option.some.inj e).symm]

end Vacate

theorem Forest.path_detach_of_not_isPartOf (hg : g.Forest) (hp : g.get? h = some p)
    (hn : g.get? c = some n) (hpart : g.isPartOf p n = false) : ∃ l, (g.detach n).Path h l ∧ c ∉ l := by
  obtain ⟨l, hl⟩ := hg.rooted hp
  have hc : c ∉ l := by
    rw [← hg.handle_eq hn, ← hg.isPartOf_iff hp hl, hpart]
    exact Bool.false_ne_true
  exact ⟨l, (hg.path_detach hn hl).1 hc, hc⟩

theorem valueOccupant_eq {check : Check} (hm : g.get? h = some m)
    (hs : m.socket? slot = some (.value check)) : g.valueOccupant h slot = g.at? ⟨h, slot⟩ := by
  obtain ⟨hne, s, hs⟩ := Node.exists_valueSlot hs
  unfold valueOccupant
  rw [at?_of_get? (p := ⟨h, slot⟩) hm, hm, m.at?_of_ne hne, hs, bind_some, hs]
  rfl

def displaced (g : Graph) (child : Handle) (place : Place) : Option Node :=
  ((g.at? place).filter (· ≠ child)).bind g.get?

/-- **What putting a block into a place does**: the block is plugged in there, what was there is at
`after` from then on, and nothing else is plugged in elsewhere. What was there is told first, with the
graph as it is `seen` then. -/
structure Puts (g : Graph) (child : Handle) (place : Place) (after : Option Place)
    (seen : Node → Node → Graph) (e : Edit) : Prop where
  lost : e.lost = none
  forest : e.graph.Forest
  alike : g.Alike e.graph
  parent? : ∀ x, e.graph.parent? x = if x = child then some (some place)
    else if g.at? place = some x then some after else g.parent? x
  notices : ∀ {c}, g.get? child = some c → e.notices
    = (g.displaced child place).toList.map
        (fun o => ⟨eventOf .move o (after.map (·.connection)), seen c o⟩)
      ++ [⟨eventOf .move c place.connection, e.graph⟩]

section Puts

variable {c : Node} {place : Place}

theorem eventOf_eq_of_bare (hb : m.bare = n.bare) (what : EventKind) (name : Option String) :
    eventOf what m name = eventOf what n name := by
  have hsame : eventOf what m.bare name = eventOf what n.bare name := by rw [hb]
  exact hsame

theorem Forest.exists_of_displaced (hg : g.Forest) {o : Node} (ho : g.displaced child place = some o) :
    g.get? o.handle = some o ∧ g.at? place = some o.handle ∧ o.handle ≠ child := by
  obtain ⟨x, hx, hget⟩ := Option.bind_eq_some_iff.mp ho
  rw [filter_eq_some_iff, decide_eq_true_iff] at hx
  rw [hg.handle_eq hget]
  exact ⟨hget, hx⟩

theorem displaced_eq_some {x : Handle} {o : Node} (hat : g.at? place = some x) (hx : x ≠ child)
    (ho : g.get? x = some o) : g.displaced child place = some o := by
  unfold displaced
  rw [hat, filter_some, if_pos (decide_eq_true hx), bind_some, ho]

theorem Forest.displaced_eq_bind (hg : g.Forest) (hc : g.get? child = some c) (place : Place) :
    g.displaced child place = ((g.detach c).at? place).bind g.get? := by
  rw [hg.at?_detach_eq_filter hc]
  rfl

theorem Forest.at?_detach_iff (hg : g.Forest) (hc : g.get? child = some c) {x : Handle} (hx : x ≠ child) :
    (g.detach c).at? place = some x ↔ g.at? place = some x := by
  rw [hg.at?_detach_eq_filter hc, filter_eq_some_iff, and_iff_left (decide_eq_true hx)]

theorem Forest.parent?_attach_detach (hg : g.Forest) (hc : g.get? child = some c) (x : Handle) :
    ((g.detach c).attach child place).parent? x = if x = child then some (some place) else g.parent? x := by
  rw [parent?_attach (hg.get?_detach_self hc), hg.parent?_detach hc]
  split <;> rfl

theorem Puts.accounts {after : Option Place} {seen : Node → Node → Graph}
    (h : g.Puts child place after seen e) (hg : g.Forest) (hc : g.get? child = some c) :
    g.Accounts (e.notices.map (·.event)) e.graph := by
  have hch := hg.handle_eq hc
  have hfreed : ∀ {o}, o ∈ (g.displaced child place).toList →
      g.get? o.handle = some o ∧ g.at? place = some o.handle ∧ o.handle ≠ child := fun ho =>
    hg.exists_of_displaced (mem_toList.mp ho)
  rw [h.notices hc, map_append, List.map_map, map_singleton]
  refine .of_moves hg h.alike (fun v hv => ?_) (fun v hv n hn => ?_) fun {n} hn hne => ?_
  · rcases mem_append.mp hv with hv | hv
    · obtain ⟨o, -, rfl⟩ := List.mem_map.mp hv
      rfl
    · rw [mem_singleton.mp hv]
      rfl
  · rcases mem_append.mp hv with hv | hv
    · obtain ⟨o, ho, rfl⟩ := List.mem_map.mp hv
      cases (hfreed ho).1.symm.trans hn
      rfl
    · cases mem_singleton.mp hv
      cases (hch ▸ hc).symm.trans hn
      rfl
  · rw [h.parent?] at hne ⊢
    by_cases hx : n.handle = child
    · cases (hx ▸ hn).symm.trans hc
      refine ⟨some place, if_pos hx, ?_⟩
      rw [filter_append, filter_eq_nil_iff.mpr fun v hv => ?_, nil_append]
      · simp [eventOf]
      · obtain ⟨o, ho, rfl⟩ := List.mem_map.mp hv
        simpa [eventOf, hx] using (hfreed ho).2.2
    · rw [if_neg hx] at hne ⊢
      by_cases hat : g.at? place = some n.handle
      · rw [if_pos hat, displaced_eq_some hat hx hn]
        exact ⟨after, rfl, by simp [eventOf, hch, Ne.symm hx]⟩
      · exact absurd (if_neg hat) hne

end Puts

theorem Forest.puts_connectValue (hg : g.Forest) {parent : Handle} (he : g.connectValue parent slot child = .ok e) :
    ∃ p c s, g.get? parent = some p ∧ g.get? child = some c ∧ p.valueSlots.get? slot = some s
      ∧ g.Puts child ⟨parent, slot⟩ none
        (fun c o => (g.detach c).modify o.handle fun n => { n with parent := none }) e := by
  unfold Graph.connectValue at he
  obtain ⟨p, hp, he⟩ := exists_of_bind_eq_ok he
  obtain ⟨c, hc, he⟩ := exists_of_bind_eq_ok he
  obtain ⟨s, hs, he⟩ := exists_of_bind_eq_ok he
  obtain ⟨spec, hspec, he⟩ := exists_of_bind_eq_ok he
  rw [node_eq_ok_iff] at hp hc
  rw [spec_eq_ok_iff hg] at hspec
  dsimp only at he
  split at he
  · cases he
  next hvalue =>
  split at he
  · cases he
  next haccepts =>
  split at he
  · cases he
  next hpart =>
  obtain ⟨⟨⟩, -, he⟩ := exists_of_bind_eq_ok he
  have hslot : p.valueSlots.get? slot = some s := by
    unfold Node.valueSlot at hs
    split at hs
    · next hget => cases hs; exact hget
    · cases hs
  refine ⟨p, c, s, hp, hc, hslot, ?_⟩
  obtain ⟨-, pspec, hpc⟩ := hg.sound hp
  have hsocket := hpc.socket?_value hslot
  have htakes : g.Takes ⟨parent, slot⟩ child := by
    refine ⟨p, c, hp, hc, _, hsocket, ?_, ?_⟩
    · unfold Node.isValue
      rw [hspec]
      simpa using hvalue
    · unfold Node.output
      rw [hspec]
      simpa using haccepts
  obtain ⟨l, hl, hcl⟩ := hg.path_detach_of_not_isPartOf hp hc (Bool.eq_false_iff.mpr hpart)
  have hg₁ := hg.detach hc
  have ha := alike_detach g c
  have hc₁ := hg.get?_detach_self hc
  obtain ⟨p₁, hp₁, hbare⟩ := ha.exists_get? hp
  have hput : ∀ {m : Node}, m.bare = p.bare → m.plugValue slot (some child) = m.put slot (some child) := by
    intro m hm
    obtain ⟨hne, s', hs'⟩ := Node.exists_valueSlot ((Node.socket?_of_bare hm slot).trans hsocket)
    exact (m.put_of_value _ hne (Table.contains_iff.mpr (Table.mem_names_of_get? hs'))).symm
  have hdisplaced := hg.displaced_eq_bind hc ⟨parent, slot⟩
  rw [valueOccupant_eq hp₁ ((Node.socket?_of_bare hbare slot).trans hsocket)] at he
  split at he
  · next hempty =>
    cases he
    have hagrees := agrees_settle hp₁ (p := ⟨parent, slot⟩) (f := (·.plugValue slot (some child))) (hput hbare)
    refine ⟨rfl, hagrees.forest (hg₁.attach hc₁ rfl hempty (ha.takes htakes) hl hcl),
      (ha.trans (alike_attach _ _ _)).trans hagrees.alike, fun x => ?_, fun hc' => ?_⟩
    · rw [hagrees.parent?, hg.parent?_attach_detach hc]
      refine if_ctx_congr Iff.rfl (fun _ => rfl) fun hx => (if_neg ?_).symm
      rw [← hg.at?_detach_iff hc hx, hempty]
      exact (some_ne_none x).symm
    · cases hc.symm.trans hc'
      rw [hdisplaced, hempty]
      rfl
  · next o ho =>
    obtain ⟨freed, hfreed, -⟩ := exists_get?_of_parent? (hg₁.linked.mpr ho)
    obtain ⟨o₀, ho₀, hbare₀⟩ := ha.symm.exists_get? hfreed
    rw [hfreed] at he
    cases he
    have hfree : (g.detach c).Alike ((g.detach c).modify o fun n => { n with parent := none }) :=
      alike_modify fun _ => rfl
    obtain ⟨p₂, hp₂, hbare₂⟩ := hfree.exists_get? hp₁
    have hagrees := agrees_settle hp₂ (p := ⟨parent, slot⟩)
      (f := (·.plugValue slot (some child))) (hput (hbare₂.trans hbare))
    obtain ⟨hforest, hparent⟩ := hg₁.replace_of_settled hc₁ rfl (ha.takes htakes) hl hcl ho hfreed
    refine ⟨rfl, hagrees.forest hforest,
      ((ha.trans hfree).trans (alike_attach _ _ _)).trans hagrees.alike, fun x => ?_, fun hc' => ?_⟩
    · rw [hagrees.parent?, hparent]
      refine if_ctx_congr Iff.rfl (fun _ => rfl) fun hx => ?_
      rw [hg.parent?_detach hc, if_neg hx]
      refine if_congr ?_ rfl rfl
      rw [← hg.at?_detach_iff hc hx, ho, Option.some.injEq, eq_comm]
    · cases hc.symm.trans hc'
      rw [hdisplaced, ho, bind_some, ho₀, ← hg.handle_eq ho₀]
      exact congrArg (fun v => [Notice.mk v _, _]) (eventOf_eq_of_bare hbare₀.symm .move none)

/-! ## Chains -/

def ChainPosition.IsOf (n : Node) : ChainPosition → Prop
  | .next => n.isStatement = true
  | .slot name => n.statementSlots.contains name = true

namespace ChainPosition

theorem isOf_of_bare {n' : Node} (hn : n'.bare = n.bare) (h : position.IsOf n) : position.IsOf n' := by
  have hbare : ∀ m : Node, position.IsOf m.bare ↔ position.IsOf m := by
    intro m
    cases position with
    | next => rfl
    | slot name =>
      have hnames : m.bare.statementSlots.names = m.statementSlots.names :=
        Table.names_mapValues (fun _ _ => none) m.statementSlots
      show m.bare.statementSlots.contains name = true ↔ m.statementSlots.contains name = true
      rw [Table.contains_iff, Table.contains_iff, hnames]
  rw [← hbare, hn, hbare]
  exact h

theorem slot_of_isOf (hc : n.Conforms spec) (h : n.statementSlots.contains name = true) :
    name ≠ nextPosition ∧ n.valueSlots.get? name = none := by
  have hpos := hc.nodup_positions
  rw [nodup_cons, nodup_append] at hpos
  have hname := Table.contains_iff.mp h
  constructor
  · rintro rfl
    exact hpos.1 (mem_append_right _ hname)
  · rw [Table.get?_eq_none_iff]
    exact fun hv => hpos.2.2.2 _ hv _ hname rfl

theorem socket?_eq (hc : n.Conforms spec) (h : position.IsOf n) : n.socket? position.name = some .chain := by
  cases position with
  | next => exact (if_pos rfl).trans (if_pos h)
  | slot name =>
    obtain ⟨hne, hv⟩ := slot_of_isOf hc h
    have h' : n.statementSlots.contains name = true := h
    show n.socket? name = some .chain
    unfold Node.socket?
    rw [if_neg hne, hv, h']
    rfl

theorem fill_eq_put (hc : n.Conforms spec) (h : position.IsOf n) (c : Handle) :
    position.fill c n = n.put position.name (some c) := by
  cases position with
  | next => rfl
  | slot name =>
    obtain ⟨hne, hv⟩ := slot_of_isOf hc h
    refine (n.put_of_statement _ hne ?_).symm
    rw [Table.contains_iff]
    exact Table.get?_eq_none_iff.mp hv

theorem occupant_eq (hn : g.get? h = some n) (hc : n.Conforms spec) (hpos : position.IsOf n) :
    g.occupant h position.name = g.at? ⟨h, position.name⟩ := by
  unfold occupant
  rw [at?_of_get? (p := ⟨h, position.name⟩) hn, hn, bind_some]
  cases position with
  | next => rfl
  | slot name =>
    obtain ⟨hne, hv⟩ := slot_of_isOf hc hpos
    show (if name == nextPosition then n.next else (n.statementSlots.get? name).bind id) = n.at? name
    rw [n.at?_of_ne hne, hv, if_neg (by simpa using hne)]
    cases n.statementSlots.get? name <;> rfl

end ChainPosition

theorem Forest.exists_chainPosition (hg : g.Forest) (hn : g.get? h = some n)
    (hst : n.isStatement = true) {q : Place} (hp : n.parent = some q) :
    ∃ m position, g.get? q.owner = some m ∧ position.IsOf m
      ∧ q = ⟨q.owner, ChainPosition.name position⟩ := by
  obtain ⟨m, hm, -, s, hs, hfits⟩ := hg.exists_owner hn hp
  unfold Node.socket? at hs
  split at hs
  · next hnext =>
    split at hs
    · next hmst => exact ⟨m, .next, hm, hmst, congrArg (Place.mk q.owner) hnext⟩
    · cases hs
  · split at hs
    · cases hs
      exact absurd hst (Node.not_isStatement_of_isValue hfits.1)
    · split at hs
      · next hslot => exact ⟨m, .slot q.connection, hm, hslot, rfl⟩
      · cases hs

theorem Alike.map_chainAt (ha : g.Alike g') (hg : g.Forest) {target : Option Handle} (hat : ∀ n ∈ g.chainAt target,
      g'.at? ⟨n.handle, nextPosition⟩ = g.at? ⟨n.handle, nextPosition⟩) :
    (g'.chainAt target).map Node.handle = (g.chainAt target).map Node.handle := by
  have hwithin : ∀ (fuel : Nat) (target : Option Handle), (∀ n ∈ g.chainWithin fuel target,
        g'.at? ⟨n.handle, nextPosition⟩ = g.at? ⟨n.handle, nextPosition⟩) →
      (g'.chainWithin fuel target).map Node.handle = (g.chainWithin fuel target).map Node.handle := by
    intro fuel
    induction fuel with
    | zero => intro target _; rfl
    | succ fuel ih =>
      intro target hat
      cases target with
      | none => rfl
      | some h =>
        cases hn : g.get? h with
        | none =>
          have hn' := ha.get?_eq_none hn
          simp only [chainWithin, follow?, bind_some, hn, hn']
        | some n =>
          obtain ⟨n', hn', hbare⟩ := ha.exists_get? hn
          have hhandle : n'.bare.handle = n.bare.handle := by rw [hbare]
          simp only [chainWithin, follow?, bind_some, hn] at hat
          have hnext : n'.next = n.next := by
            have hsame := hat n mem_cons_self
            rwa [hg.handle_eq hn, at?_of_get? (p := ⟨h, nextPosition⟩) hn',
              at?_of_get? (p := ⟨h, nextPosition⟩) hn, n'.at?_nextPosition, n.at?_nextPosition] at hsame
          simp only [chainWithin, follow?, bind_some, hn, hn', map_cons, hnext,
            ih n.next fun m hm => hat m (mem_cons_of_mem _ hm)]
          exact congrArg (· :: _) hhandle
  have hreach : g'.reach = g.reach := ha.next
  unfold chainAt
  rw [hreach]
  exact hwithin _ _ hat

def lastOf (g : Graph) (c : Handle) : Handle :=
  (((g.chainAt (some c)).getLast?).map (·.handle)).getD c

theorem lastOf_eq_of_map_chainAt (h : (g'.chainAt (some c)).map Node.handle = (g.chainAt (some c)).map Node.handle) :
    g'.lastOf c = g.lastOf c := by
  unfold lastOf
  rw [← getLast?_map, ← getLast?_map, h]

theorem Agrees.chainAt (ha : g.Agrees g') (target : Option Handle) : g'.chainAt target = g.chainAt target := by
  have hwithin : ∀ (fuel : Nat) (target : Option Handle), g'.chainWithin fuel target = g.chainWithin fuel target := by
    intro fuel
    induction fuel with
    | zero => intro target; rfl
    | succ fuel ih =>
      intro target
      have hfollow : g'.follow? target = g.follow? target := by
        unfold follow?
        rw [funext ha.get?]
      simp only [chainWithin, hfollow, ih]
  have hreach : g'.reach = g.reach := ha.next
  unfold Graph.chainAt
  rw [hreach]
  exact hwithin _ _

section Displace

variable {p : Place} {o : Handle} {l : List Handle}

theorem Forest.links_replace (hg : g.Forest) (hn : g.get? c = some n) (ht : g.Takes p c)
    (ho : g.at? p = some o) (hm : g.get? o = some m) :
    (∀ x, x ≠ o → ((g.detach m).attach c p).parent? x = (g.attach c p).parent? x)
      ∧ ∀ x, ((g.detach m).attach c p).at? x = (g.attach c p).at? x := by
  have ha := alike_detach g m
  obtain ⟨n', hn', -⟩ := ha.exists_get? hn
  refine ⟨fun x hx => ?_, fun x => ?_⟩
  · rw [parent?_attach hn', parent?_attach hn, hg.parent?_detach hm, if_neg hx]
  · rw [at?_attach (ha.takes ht), at?_attach ht, hg.at?_detach hm]
    by_cases hx : x = p
    · rw [if_pos hx, if_pos hx]
    · rw [if_neg hx, if_neg hx, hg.parent_of_at? ho hm, if_neg fun e => hx (Option.some.inj e).symm]

theorem Forest.displace (hg : g.Forest) (hn : g.get? c = some n) (htop : n.parent = none)
    (hnst : n.isStatement = true) (ht : g.Takes p c) (hl : g.Path p.owner l) (hc : c ∉ l)
    (ho : g.at? p = some o) (hm : g.get? o = some m) (hmst : m.isStatement = true)
    (hg' : (g.attach c p).Agrees g') :
    let after : Place := ⟨g'.lastOf c, nextPosition⟩
    let g'' := (g'.modify (g'.lastOf c) fun n => { n with next := some o }).settle o after
    g''.Forest ∧ g'.Alike g''
      ∧ ∀ x, g''.parent? x = if x = o then some (some after) else g'.parent? x := by
  have hdetach := alike_detach g m
  obtain ⟨n₁, hn₁, hbare₁⟩ := hdetach.exists_get? hn
  have hno := hg.ne_of_at? hn htop ho
  -- the graph with the occupant taken out first, which is a forest throughout
  have hf := hg.replace hn htop ht hl hc ho hm
  obtain ⟨hparent, hat⟩ := hg.links_replace hn ht ho hm
  have halike : ((g.detach m).attach c p).Alike g' :=
    (((alike_attach _ _ _).symm.trans hdetach.symm).trans (alike_attach _ _ _)).trans hg'.alike
  have hat' : ∀ x, g'.at? x = ((g.detach m).attach c p).at? x := fun x =>
    (hg'.at? x).trans (hat x).symm
  have hpath : ((g.detach m).attach c p).Path c (c :: l) := .up (by rw [parent?_attach hn₁, if_pos rfl])
      ((hg.vacate ho hm hl).2.attach_of_notMem hn₁ hc)
  obtain ⟨n₂, hn₂, hbare₂⟩ := (alike_attach (g.detach m) c p).exists_get? hn₁
  have hn₂st := (Node.isStatement_of_bare (hbare₂.trans hbare₁)).trans hnst
  obtain ⟨t, ht₁, htnext, htget, ⟨l₁, hl₁⟩, htst⟩ := hf.exists_tail ((g.detach m).attach c p).reach hn₂ hpath
      (by unfold reach; rw [length_cons]; omega)
  have htail : g'.lastOf c = t.handle := by
    rw [lastOf_eq_of_map_chainAt (halike.map_chainAt hf fun n _ => hat' _)]
    unfold lastOf chainAt
    rw [ht₁]
    rfl
  rw [htail]
  -- the occupant stands on its own, and the last statement of the chain is not below it
  have hotop : ((g.detach m).attach c p).parent? o = some none := by
    rw [parent?_attach hn₁, if_neg hno.symm, hg.parent?_detach hm, if_pos rfl]
  obtain ⟨m₂, hm₂, hm₂top⟩ := exists_get?_of_parent? hotop
  have hm₂st : m₂.isStatement = true := by
    obtain ⟨m', hm', hbare'⟩ := (hdetach.trans (alike_attach _ c p)).exists_get? hm
    cases hm₂.symm.trans hm'
    exact (Node.isStatement_of_bare hbare').trans hmst
  have hol : o ∉ l₁ ++ c :: l := by
    refine hl₁.notMem_of_top (cons_ne_nil _ _) hotop ?_
    rw [mem_cons, not_or]
    exact ⟨hno.symm, hg.notMem_path ho hl⟩
  have hsocket : t.socket? nextPosition = some .chain := (if_pos rfl).trans (if_pos (htst hn₂st))
  have htakes : ((g.detach m).attach c p).Takes ⟨t.handle, nextPosition⟩ o := ⟨t, m₂, htget, hm₂, _, hsocket, hm₂st⟩
  have hempty : ((g.detach m).attach c p).at? ⟨t.handle, nextPosition⟩ = none := by
    rw [at?_of_get? (p := ⟨t.handle, nextPosition⟩) htget, t.at?_nextPosition, htnext]
  have hforest := hf.attach (p := ⟨t.handle, nextPosition⟩) hm₂ hm₂top hempty htakes hl₁ hol
  obtain ⟨t', ht', -⟩ := halike.exists_get? htget
  have hagrees := agrees_settle (p := ⟨t.handle, nextPosition⟩) (c := o)
    (f := fun n => { n with next := some o }) ht' (t'.put_nextPosition _).symm
  obtain ⟨m₃, hm₃, -⟩ := halike.exists_get? hm₂
  refine ⟨hagrees.forest ?_, (alike_attach _ _ _).trans hagrees.alike, fun x => ?_⟩
  swap
  · rw [hagrees.parent?, parent?_attach hm₃]
  refine Alike.forest_of_links (((alike_attach _ _ _).symm.trans halike).trans (alike_attach _ _ _)) hforest ?_ ?_
  · intro x
    rw [parent?_attach hm₃, parent?_attach hm₂]
    by_cases hx : x = o
    · rw [if_pos hx, if_pos hx]
    · rw [if_neg hx, if_neg hx, hparent x hx, hg'.parent?]
  · intro x
    rw [at?_attach (halike.takes htakes), at?_attach htakes, hat']

end Displace

theorem Forest.isStatement_of_at? (hg : g.Forest) {o : Handle} (hn : g.get? h = some n)
    (hpos : position.IsOf n) (ho : g.at? ⟨h, position.name⟩ = some o) (hm : g.get? o = some m) :
    m.isStatement = true := by
  obtain ⟨-, spec, hc⟩ := hg.sound hn
  obtain ⟨n', m', hn', hm', s, hs, hfits⟩ := hg.typed ho
  cases hn.symm.trans hn'
  cases hm.symm.trans hm'
  rw [ChainPosition.socket?_eq hc hpos] at hs
  cases hs
  exact hfits

theorem Forest.splice (hg : g.Forest) {c : Node} (hp : g.get? p.handle = some p)
    (hpos : position.IsOf p) (hc : g.get? child = some c) (hst : c.isStatement = true)
    (hpart : g.isPartOf p c = false) :
    let place : Place := ⟨p.handle, position.name⟩
    ∃ e, g.attachChain p position (p.at? position.name) child = .ok e ∧ g.Puts child place
      (some ⟨((g.detach c).attach child place).lastOf child, nextPosition⟩) (fun _ _ => e.graph) e := by
  intro place
  obtain ⟨spec, hspec, hstatement⟩ := hg.exists_spec_of_isStatement hst
  obtain ⟨-, pspec, hpc⟩ := hg.sound hp
  have htakes : g.Takes place child := ⟨p, c, hp, hc, _, ChainPosition.socket?_eq hpc hpos, hst⟩
  obtain ⟨l, hl, hcl⟩ := hg.path_detach_of_not_isPartOf hp hc hpart
  have hg₁ := hg.detach hc
  have ha := alike_detach g c
  have hc₁ := hg.get?_detach_self hc
  obtain ⟨p₁, hp₁, hbare⟩ := ha.exists_get? hp
  obtain ⟨-, pspec₁, hpc₁⟩ := hg₁.sound hp₁
  have hpos₁ := ChainPosition.isOf_of_bare hbare hpos
  have hocc : (if c.parent.isSome then (g.detach c).occupant p.handle position.name
      else p.at? position.name) = (g.detach c).at? place := by
    cases hcp : c.parent with
    | none =>
      rw [detach_of_top g hcp, at?_of_get? (p := place) hp]
      rfl
    | some q => exact ChainPosition.occupant_eq hp₁ hpc₁ hpos₁
  have hagrees := agrees_settle hp₁ (p := place) (f := position.fill child)
    (ChainPosition.fill_eq_put hpc₁ hpos₁ child)
  have halike := (ha.trans (alike_attach _ _ _)).trans hagrees.alike
  have hdisplaced := hg.displaced_eq_bind hc place
  simp only [Graph.attachChain, node_eq_ok_iff.mpr hc, hspec, hstatement, hpart, hg.checkPlace_eq_ok hc, hocc, bind, Except.bind, Bool.not_true, Bool.false_eq_true, if_false]
  cases hat : (g.detach c).at? place with
  | none =>
    refine ⟨_, rfl, rfl, hagrees.forest (hg₁.attach hc₁ rfl hat (ha.takes htakes) hl hcl), halike,
      fun x => ?_, fun hc' => ?_⟩
    · rw [hagrees.parent?, hg.parent?_attach_detach hc]
      refine if_ctx_congr Iff.rfl (fun _ => rfl) fun hx => (if_neg ?_).symm
      rw [← hg.at?_detach_iff hc hx, hat]
      exact (some_ne_none x).symm
    · cases hc.symm.trans hc'
      rw [hdisplaced, hat]
      rfl
  | some o =>
    -- the position does not hold the chain itself, which stands on its own
    have hne := (hg₁.ne_of_at? hc₁ rfl hat).symm
    have hfilter : Option.filter (· != child) (some o) = some o := by
      rw [filter_some, if_pos (by simpa using hne)]
    obtain ⟨m, hm, -⟩ := exists_get?_of_parent? (hg₁.linked.mpr hat)
    obtain ⟨m₀, hm₀, hbare₀⟩ := ha.symm.exists_get? hm
    obtain ⟨m₂, hm₂, hbare₂⟩ := ((alike_attach _ _ _).trans hagrees.alike).exists_get? hm
    have hmst := hg₁.isStatement_of_at? hp₁ hpos₁ hat hm
    obtain ⟨hforest, halike', hparent'⟩ := hg₁.displace hc₁ rfl hst (ha.takes htakes) hl hcl hat hm hmst hagrees
    have hlast := lastOf_eq_of_map_chainAt (congrArg (List.map Node.handle) (hagrees.chainAt (some child)))
    simp only [hfilter]
    rw [show Graph.get? _ o = some m₂ from hm₂]
    refine ⟨_, rfl, rfl, hforest, halike.trans halike', fun x => ?_, fun hc' => ?_⟩
    · refine (hparent' x).trans ?_
      rw [hlast, hagrees.parent?, hg.parent?_attach_detach hc]
      by_cases hx : x = child
      · rw [if_pos hx, if_pos hx, if_neg (hx ▸ hne.symm)]
      · rw [if_neg hx, if_neg hx]
        refine if_congr ?_ rfl rfl
        rw [← hg.at?_detach_iff hc hx, hat, Option.some.injEq, eq_comm]
    · cases hc.symm.trans hc'
      rw [hdisplaced, hat, bind_some, hm₀]
      exact congrArg (fun v => [Notice.mk v _, _]) (eventOf_eq_of_bare (hbare₂.trans hbare₀.symm) .move nextPosition)

theorem Forest.puts_attachChain (hg : g.Forest) (hp : g.get? p.handle = some p)
    (hpos : position.IsOf p) (he : g.attachChain p position (p.at? position.name) child = .ok e) :
    ∃ c tail, g.get? child = some c ∧ g.Puts child ⟨p.handle, position.name⟩
      (some ⟨tail, nextPosition⟩) (fun _ _ => e.graph) e := by
  have hchecked := he
  unfold Graph.attachChain at hchecked
  obtain ⟨c, hc, hchecked⟩ := exists_of_bind_eq_ok hchecked
  obtain ⟨spec, hspec, hchecked⟩ := exists_of_bind_eq_ok hchecked
  rw [node_eq_ok_iff] at hc
  rw [spec_eq_ok_iff hg] at hspec
  dsimp only at hchecked
  split at hchecked
  · cases hchecked
  next hstatement =>
  split at hchecked
  · cases hchecked
  next hpart =>
  have hst : c.isStatement = true := by
    unfold Node.isStatement
    rw [hspec]
    simpa using hstatement
  obtain ⟨e', he', hputs⟩ := hg.splice hp hpos hc hst (Bool.eq_false_iff.mpr hpart)
  cases he.symm.trans he'
  exact ⟨c, _, hc, hputs⟩

theorem Forest.attachChain_of_connectStatement (hg : g.Forest) {parent : Handle}
    (he : g.connectStatement parent slot child = .ok e) :
    ∃ p, g.get? parent = some p ∧ ChainPosition.IsOf p (.slot slot)
      ∧ g.attachChain p (.slot slot) (p.at? slot) child = .ok e := by
  unfold Graph.connectStatement at he
  obtain ⟨p, hp, he⟩ := exists_of_bind_eq_ok he
  obtain ⟨occupied, hocc, he⟩ := exists_of_bind_eq_ok he
  rw [node_eq_ok_iff] at hp
  unfold Node.statementSlot at hocc
  split at hocc
  · next t hget =>
    cases hocc
    have hpos : ChainPosition.IsOf p (.slot slot) := Table.contains_iff.mpr (Table.mem_names_of_get? hget)
    obtain ⟨-, spec, hc⟩ := hg.sound hp
    have hat : p.at? slot = occupied := by
      obtain ⟨hne, hv⟩ := ChainPosition.slot_of_isOf hc hpos
      rw [p.at?_of_ne hne, hv, hget]
      rfl
    exact ⟨p, hp, hpos, hat ▸ he⟩
  · cases hocc

theorem Forest.attachChain_of_connectNext (hg : g.Forest) {previous : Handle}
    (he : g.connectNext previous child = .ok e) :
    ∃ p, g.get? previous = some p ∧ ChainPosition.IsOf p .next
      ∧ g.attachChain p .next (p.at? nextPosition) child = .ok e := by
  unfold Graph.connectNext at he
  obtain ⟨p, hp, he⟩ := exists_of_bind_eq_ok he
  obtain ⟨spec, hspec, he⟩ := exists_of_bind_eq_ok he
  rw [node_eq_ok_iff] at hp
  rw [spec_eq_ok_iff hg] at hspec
  dsimp only at he
  split at he
  · cases he
  next hst =>
  have hpos : ChainPosition.IsOf p .next := by
    show p.isStatement = true
    unfold Node.isStatement
    rw [hspec]
    simpa using hst
  exact ⟨p, hp, hpos, he⟩

/-! ## The edits of links -/

section Links

variable {parent : Handle}

theorem Puts.done {place : Place} {after : Option Place} {seen : Node → Node → Graph} {c : Node}
    (h : g.Puts child place after seen e) (hg : g.Forest) (hc : g.get? child = some c)
    {early : Option Place} (hseen : ∀ {o}, g.displaced child place = some o →
      seen c o = e.graph ∨ ∃ p ∈ early, SentEarly ⟨eventOf .move o (after.map (·.connection)), seen c o⟩ p) :
    g.Done early e := by
  refine ⟨.of_alike h.alike h.forest, h.lost, h.accounts hg hc, fun t ht => ?_⟩
  rw [h.notices hc] at ht
  rcases mem_append.mp ht with ht | ht
  · obtain ⟨o, ho, rfl⟩ := List.mem_map.mp ht
    exact hseen (mem_toList.mp ho)
  · rw [mem_singleton.mp ht]
    exact .inl rfl

theorem Forest.sentEarly (hg : g.Forest) {p : Place} {v : Event}
    (hv : v.what = .move ∧ v.name = none ∧ v.handle = h) (hat : g.at? p = some h) :
    SentEarly ⟨v, g.modify h fun n => { n with parent := none }⟩ p := by
  obtain ⟨hwhat, hname, rfl⟩ := hv
  obtain ⟨n, hn, hp⟩ := exists_get?_of_parent? (hg.linked.mpr hat)
  refine ⟨⟨hwhat, hname⟩, ?_, ?_, ?_⟩
  · unfold parent?
    rw [get?_modify, if_pos rfl, hn]
    rfl
  · exact (at?_modify (f := fun n => { n with parent := none }) (fun _ _ => rfl) _).trans hat
  · -- emptying the place completes taking the block out
    refine Agrees.forest ⟨?_, ?_, fun x => ?_⟩ (hg.detach hn)
    · simp only [catalog_modify, (alike_detach g n).catalog]
    · simp only [nextHandle_modify, (alike_detach g n).next]
    · have hown := hg.owner_ne hn hp
      unfold Graph.detach
      rw [hp]
      simp only [hg.handle_eq hn, get?_modify]
      by_cases hx : x = p.owner
      · rw [if_pos hx, if_neg (hx ▸ hown), if_neg (hx ▸ hown), if_pos hx]
      · rw [if_neg hx, if_neg hx]

theorem Forest.connectValue (hg : g.Forest) (he : g.connectValue parent slot child = .ok e) :
    g.Done (some ⟨parent, slot⟩) e := by
  obtain ⟨p, c, s, -, hc, -, hputs⟩ := hg.puts_connectValue he
  refine hputs.done hg hc fun {o} ho => .inr ⟨_, rfl, ?_⟩
  obtain ⟨-, hat, hne⟩ := hg.exists_of_displaced ho
  exact (hg.detach hc).sentEarly ⟨rfl, rfl, rfl⟩ ((hg.at?_detach_iff hc hne).mpr hat)

theorem Forest.attachChain (hg : g.Forest) (hp : g.get? parent = some p) (hpos : position.IsOf p)
    (he : g.attachChain p position (p.at? position.name) child = .ok e) : g.Done none e := by
  have hh := hg.handle_eq hp
  subst hh
  obtain ⟨c, tail, hc, hputs⟩ := hg.puts_attachChain hp hpos he
  exact hputs.done hg hc fun _ => .inl rfl

theorem Forest.connectStatement (hg : g.Forest) (he : g.connectStatement parent slot child = .ok e) :
    g.Done none e := by
  obtain ⟨p, hp, hpos, hput⟩ := hg.attachChain_of_connectStatement he
  exact hg.attachChain hp hpos hput

theorem Forest.connectNext (hg : g.Forest) (he : g.connectNext parent child = .ok e) : g.Done none e := by
  obtain ⟨p, hp, hpos, hput⟩ := hg.attachChain_of_connectNext he
  exact hg.attachChain hp hpos hput

theorem Forest.disconnect (hg : g.Forest) (he : g.disconnect h = .ok e) : g.Done none e := by
  unfold Graph.disconnect at he
  obtain ⟨n, hn, he⟩ := exists_of_bind_eq_ok he
  rw [node_eq_ok_iff] at hn
  dsimp only at he
  split at he
  · cases he
    exact ⟨.refl hg, rfl, .of_moves hg (.refl g) (by simp) (by simp) fun _ hne => absurd rfl hne, by simp⟩
  · rw [hg.checkPlace_eq_ok hn] at he
    cases he
    have hh := hg.handle_eq hn
    refine ⟨.of_alike (alike_detach g n) (hg.detach hn), rfl,
      .of_moves hg (alike_detach g n) (by simp [eventOf]) (fun v hv m hm => ?_) fun {m} hm hne => ?_, by simp⟩
    · cases mem_singleton.mp hv
      cases (hh ▸ hn).symm.trans hm
      rfl
    · rw [hg.parent?_detach hn] at hne ⊢
      split at hne
      · next hx =>
        cases (hx ▸ hm).symm.trans hn
        exact ⟨none, if_pos hx, by simp [eventOf]⟩
      · exact absurd rfl hne

end Links

end Graph

end NqcBlocks
