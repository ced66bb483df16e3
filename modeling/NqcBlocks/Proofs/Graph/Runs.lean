import NqcBlocks.Proofs.Graph.Edit

/-!
# Runs of an editor

Whatever commands an editor performs, refused ones included and with any number of validators
watching, its graph is a forest and handles are issued once. A command is a list of edits
(`Command.edits`), of which each is done as `Graph.Done` says, and what validators do about events is to
set flags. Each of the two inductions is done once: `Graph.foldl_tell_induct` follows what setting flags
keeps, and `Editor.applyAll_induct` what edits keep. So one command leads from a forest to a later state
of it (`Editor.leadsTo_attempt`). A graph is **reachable** if it comes about by commands and by setting
flags; every reachable graph is a forest.
-/

namespace NqcBlocks

open Graph List Editor

variable {e : Editor} {g : Graph} {n : Node}

namespace Graph

/-! ## Validation -/

section Flags

variable {P : Graph → Prop} (hP : ∀ {g h enabled warning}, P g → P (g.setFlags h enabled warning))

include hP

theorem checkNode_induct {h : Handle} {g' : Graph} {report : Option ValidationReport} (hg : P g)
    (hc : g.checkNode h = .ok (g', report)) : P g' := by
  unfold Graph.checkNode at hc
  split at hc
  · cases hc
    exact hg
  · split at hc <;> cases hc
    · exact hg
    · exact hP hg

theorem checkAll_induct {hs : List Handle} (hg : P g) : P (g.checkAll hs).1 := by
  induction hs generalizing g with
  | nil => exact hg
  | cons h hs ih =>
    rw [Graph.checkAll]
    split
    · exact ih hg
    · next hc => exact ih (checkNode_induct hP hg hc)

theorem revalidate_induct {count : Nat} (hg : P g) : P (revalidate count g) := by
  induction count generalizing g with
  | zero => exact hg
  | succ count ih => exact ih (checkAll_induct hP hg)

theorem foldl_tell_induct {events : List Event} (hg : P e.graph) : P (events.foldl tell e).graph := by
  induction events generalizing e with
  | nil => exact hg
  | cons event events ih =>
    refine ih ?_
    unfold Editor.tell
    dsimp only
    split
    · exact revalidate_induct hP hg
    · exact hg

end Flags

theorem LeadsTo.setFlags {g' : Graph} {x : Handle} {enabled : Bool} {warning : Option String}
    (h : g.LeadsTo g') : g.LeadsTo (g'.setFlags x enabled warning) :=
  h.trans (h.forest.setFlags x enabled warning)

theorem Forest.validate (hg : g.Forest) : g.LeadsTo g.validate.1 :=
  checkAll_induct (P := g.LeadsTo) .setFlags (.refl hg)

end Graph

/-! ## Commands -/

def Command.edits (g : Graph) : Command → List (Graph → Except GraphError Edit)
  | .create tag init => [fun g => (g.create tag init).map (·.2)]
  | .delete h => [(·.delete h)]
  | .clear => g.topBlocks.map fun n g => g.delete n.handle
  | .setField h name value => [(·.setField h name value)]
  | .setComment h comment => [(·.setComment h comment)]
  | .setEnabled h enabled => [(·.setEnabled h enabled)]
  | .connectValue p slot c => [(·.connectValue p slot c)]
  | .connectStatement p slot c => [(·.connectStatement p slot c)]
  | .connectNext p c => [(·.connectNext p c)]
  | .disconnect h => [(·.disconnect h)]

def Command.early : Command → Option Place
  | .connectValue parent slot _ => some ⟨parent, slot⟩
  | _ => none

theorem Command.done {c : Command} {g₀ : Graph} (hg : g.Forest) {f : Graph → Except GraphError Edit}
    (hf : f ∈ c.edits g₀) {edit : Edit} (he : f g = .ok edit) : g.Done c.early edit := by
  cases c with
  | clear =>
    obtain ⟨n, -, rfl⟩ := mem_map.mp hf
    exact hg.delete he
  | create tag init =>
    cases mem_singleton.mp hf
    dsimp only at he
    cases hc : g.create tag init with
    | error cause => rw [hc] at he; cases he
    | ok r =>
      rw [hc] at he
      cases he
      exact (hg.create hc).1
  | delete h => cases mem_singleton.mp hf; exact hg.delete he
  | setField h name value => cases mem_singleton.mp hf; exact hg.setField he
  | setComment h comment => cases mem_singleton.mp hf; exact hg.setComment he
  | setEnabled h enabled => cases mem_singleton.mp hf; exact hg.setEnabled he
  | connectValue p slot c => cases mem_singleton.mp hf; exact hg.connectValue he
  | connectStatement p slot c => cases mem_singleton.mp hf; exact hg.connectStatement he
  | connectNext p c => cases mem_singleton.mp hf; exact hg.connectNext he
  | disconnect h => cases mem_singleton.mp hf; exact hg.disconnect he

namespace Editor

def applyAll (e : Editor) : List (Graph → Except GraphError Edit) → Editor × Except GraphError Unit
  | [] => (e, .ok ())
  | f :: rest => match e.apply f with
    | (e, .ok ()) => e.applyAll rest
    | refused => refused

theorem apply_eq {f : Graph → Except GraphError Edit} (hf : ∀ {edit}, f e.graph = .ok edit → edit.lost = none) :
    e.apply f = match f e.graph with
      | .error cause => (e, .error cause)
      | .ok edit => (e.commit edit, .ok ()) := by
  unfold apply
  cases hedit : f e.graph with
  | error cause => rfl
  | ok edit => simp only [hf hedit]

theorem applyAll_singleton (e : Editor) (f : Graph → Except GraphError Edit) : e.applyAll [f] = e.apply f := by
  unfold applyAll
  split
  · next h => exact h.symm
  · rfl

theorem perform_eq (hg : e.graph.Forest) (c : Command) : e.perform c = e.applyAll (c.edits e.graph) := by
  cases c with
  | clear =>
    have hall : ∀ (ns : List Node) (e : Editor),
        e.deleteAll (ns.map (·.handle)) = e.applyAll (ns.map fun n g => g.delete n.handle) := by
      intro ns
      induction ns with
      | nil => exact fun _ => rfl
      | cons n ns ih =>
        intro e
        rw [map_cons, map_cons, deleteAll, applyAll]
        split <;> simp_all
    exact hall _ e
  | create tag init =>
    rw [Command.edits, applyAll_singleton, apply_eq fun he => (Command.done hg
      (show _ ∈ (Command.create tag init).edits e.graph from mem_singleton_self _) he).lost]
    unfold perform create
    dsimp only
    cases e.graph.create tag init <;> rfl
  | _ =>
    rw [Command.edits, applyAll_singleton]
    rfl

theorem applyAll_induct {P : Editor → Prop} {fs : List (Graph → Except GraphError Edit)}
    (hP : ∀ {e f edit}, f ∈ fs → P e → f e.graph = .ok edit → P (e.commit edit)) (he : P e) :
    P (e.applyAll fs).1 := by
  induction fs generalizing e with
  | nil => exact he
  | cons f fs ih =>
    have hstep : P (e.apply f).1 := by
      unfold apply
      split
      · exact he
      · next edit hedit => exact hP mem_cons_self he hedit
    rw [applyAll]
    split
    · next e' heq =>
      rw [heq] at hstep
      exact ih (fun hf => hP (mem_cons_of_mem _ hf)) hstep
    · exact hstep

theorem commit_of_unwatched (he : e.validators = 0) (edit : Edit) :
    (e.commit edit).graph = edit.graph ∧ (e.commit edit).validators = 0 := by
  have hloop : ∀ (events : List Event) {e : Editor}, e.validators = 0 →
      (events.foldl tell e).graph = e.graph ∧ (events.foldl tell e).validators = 0 := by
    intro events
    induction events with
    | nil => exact fun he => ⟨rfl, he⟩
    | cons event events ih =>
      intro e he
      obtain ⟨hgraph, hvalidators⟩ := ih (e := e.tell event) he
      refine ⟨hgraph.trans ?_, hvalidators⟩
      unfold Editor.tell
      rw [he]
      exact ite_self _
  exact hloop _ he

theorem leadsTo_commit {edit : Edit} (h : e.graph.LeadsTo edit.graph) : e.graph.LeadsTo (e.commit edit).graph :=
  foldl_tell_induct (P := e.graph.LeadsTo) .setFlags (e := { e with graph := edit.graph }) h

theorem leadsTo_attempt (hg : e.graph.Forest) (c : Command) : e.graph.LeadsTo (e.attempt c).graph := by
  unfold attempt
  rw [perform_eq hg]
  refine applyAll_induct (P := fun e' => e.graph.LeadsTo e'.graph) (fun hf h hedit => ?_) (.refl hg)
  exact h.trans (leadsTo_commit (c.done h.forest hf hedit).toLeadsTo)

theorem leadsTo_run : ∀ {cs : List Command} {e : Editor}, e.graph.Forest → e.graph.LeadsTo (e.run cs).graph := by
  intro cs
  induction cs with
  | nil => intro e hg; exact .refl hg
  | cons c cs ih =>
    intro e hg
    have hstep := leadsTo_attempt hg c
    exact hstep.trans (ih hstep.forest)

end Editor

/-! ## Reachable graphs -/

namespace Graph

theorem Forest.empty : Graph.empty.Forest where
  builtin := rfl
  sound := by
    intro h n hn
    cases h <;> cases hn
  linked := by
    intro h p
    have hp : Graph.empty.parent? h = none := by cases h <;> rfl
    have ha : Graph.empty.at? p = none := by
      obtain ⟨o, k⟩ := p
      cases o <;> rfl
    rw [hp, ha]
    exact ⟨nofun, nofun⟩
  typed := by
    rintro ⟨o, k⟩ h hp
    cases o <;> cases hp
  rooted := by
    intro h n hn
    cases h <;> cases hn

/-- **A graph is reachable** if it comes about from the empty one by commands, under whatever
supervision, and by setting flags. -/
inductive Reachable : Graph → Prop
  | empty : Reachable .empty
  | command {e : Editor} (c : Command) : Reachable e.graph → Reachable (e.attempt c).graph
  | flags {g : Graph} (h : Handle) (enabled : Bool) (warning : Option String) :
      Reachable g → Reachable (g.setFlags h enabled warning)

theorem Reachable.forest (hg : g.Reachable) : g.Forest := by
  induction hg with
  | empty => exact .empty
  | command c _ ih => exact (leadsTo_attempt ih c).forest
  | flags h enabled warning _ ih => exact (ih.setFlags h enabled warning).forest

theorem reachable_run (he : e.graph.Reachable) (cs : List Command) : (e.run cs).graph.Reachable := by
  induction cs generalizing e with
  | nil => exact he
  | cons c cs ih => exact ih (.command c he)

/-! ## What a forest is, block by block -/

theorem mem_earlier_iff {α : Type} {f : α → Handle} {before after : List α} {x y : α}
    (hs : (before ++ y :: after).Pairwise fun a b => f a < f b) :
    x ∈ before ↔ x ∈ before ++ y :: after ∧ f x < f y := by
  rw [pairwise_append, pairwise_cons] at hs
  obtain ⟨-, ⟨hafter, -⟩, hbefore⟩ := hs
  refine ⟨fun h => ⟨mem_append_left _ h, hbefore x h y mem_cons_self⟩, fun ⟨hmem, hlt⟩ => ?_⟩
  rcases mem_append.mp hmem with h | h
  · exact h
  rcases mem_cons.mp h with rfl | h
  · exact absurd hlt (Nat.lt_irrefl _)
  · exact absurd hlt (Nat.lt_asymm (hafter x h))

/-- **A well-formed typed forest**, in terms of its blocks. -/
structure TypedForest (g : Graph) : Prop where
  ordered : (g.nodes.map (·.handle)).Pairwise (· < ·)
  issued : ∀ n ∈ g.nodes, n.handle < g.nextHandle
  linked : ∀ c ∈ g.nodes, ∀ p k,
    c.parent = some ⟨p, k⟩ ↔ ∃ n ∈ g.nodes, n.handle = p ∧ n.Holds k c.handle
  present : ∀ n ∈ g.nodes, ∀ k h, n.Holds k h → ∃ c ∈ g.nodes, c.handle = h
  single : ∀ n ∈ g.nodes, ∀ n' ∈ g.nodes, ∀ k k' h, n.Holds k h → n'.Holds k' h → n = n' ∧ k = k'
  grounded : ∀ n ∈ g.nodes, ∃ l, g.Path n.handle l ∧ l.Nodup
  values : ∀ n ∈ g.nodes, ∀ slot s h, (slot, s) ∈ n.valueSlots → s.target = some h →
    ∃ c ∈ g.nodes, c.handle = h ∧ c.isValue = true ∧ s.check.accepts c.output = true
  statements : ∀ n ∈ g.nodes, ∀ slot h, (slot, some h) ∈ n.statementSlots →
    ∃ c ∈ g.nodes, c.handle = h ∧ c.isStatement = true
  nexts : ∀ n ∈ g.nodes, ∀ h, n.next = some h →
    n.isStatement = true ∧ ∃ c ∈ g.nodes, c.handle = h ∧ c.isStatement = true
  tasks : ∀ n ∈ g.nodes, n.kind = .mainTask ∨ n.kind = .namedTask → n.parent = none ∧ n.next = none

namespace Forest

theorem mem_nodes_iff_get? (hg : g.Forest) : n ∈ g.nodes ↔ g.get? n.handle = some n := by
  rw [mem_nodes_iff]
  constructor
  · rintro ⟨h, hn⟩
    rw [hg.handle_eq hn]
    exact hn
  · exact fun hn => ⟨_, hn⟩

theorem eq_of_handle_eq (hg : g.Forest) {m : Node} (hn : n ∈ g.nodes) (hm : m ∈ g.nodes)
    (h : n.handle = m.handle) : n = m := by
  have hget := hg.mem_nodes_iff_get?.mp hn
  rw [h, hg.mem_nodes_iff_get?.mp hm] at hget
  exact (Option.some.inj hget).symm

theorem mem_topBlocks_iff (hg : g.Forest) : n ∈ g.topBlocks ↔ g.get? n.handle = some n ∧ n.parent = none := by
  unfold topBlocks
  rw [mem_filter, Option.isNone_iff_eq_none, hg.mem_nodes_iff_get?]

theorem exists_held (hg : g.Forest) (hn : n ∈ g.nodes) {k : String} {h : Handle} (hh : n.Holds k h) :
    ∃ c ∈ g.nodes, c.handle = h ∧ c.parent = some ⟨n.handle, k⟩ ∧ n.Takes k c := by
  have hget := hg.mem_nodes_iff_get?.mp hn
  obtain ⟨-, spec, hc⟩ := hg.sound hget
  obtain ⟨c, hcget, hp, ht⟩ := hg.exists_child hget ((Node.holds_iff hc).mp hh)
  exact ⟨c, mem_nodes_iff.mpr ⟨h, hcget⟩, hg.handle_eq hcget, hp, ht⟩

theorem isValue_or_isStatement_of_takes {m : Node} {k : String} (ht : n.Takes k m) :
    m.isValue = true ∨ m.isStatement = true := by
  obtain ⟨s, -, hfits⟩ := ht
  cases s with
  | value check => exact .inl hfits.1
  | chain => exact .inr hfits

theorem typedForest (hg : g.Forest) : g.TypedForest where
  ordered := pairwise_nodes hg.handle_eq
  issued := fun n hn => (lt_nextHandle_of_get? (hg.mem_nodes_iff_get?.mp hn)).2
  linked := by
    intro c hc p k
    have hcget := hg.mem_nodes_iff_get?.mp hc
    constructor
    · intro hp
      obtain ⟨m, hm, hat, -⟩ := hg.exists_owner hcget hp
      obtain ⟨hmh, spec, hmc⟩ := hg.sound hm
      exact ⟨m, mem_nodes_iff.mpr ⟨p, hm⟩, hmh, (Node.holds_iff hmc).mpr hat⟩
    · rintro ⟨n, hn, rfl, hh⟩
      obtain ⟨c', hc', hch, hp, -⟩ := hg.exists_held hn hh
      exact hg.eq_of_handle_eq hc' hc hch ▸ hp
  present := by
    intro n hn k h hh
    obtain ⟨c, hc, hch, -⟩ := hg.exists_held hn hh
    exact ⟨c, hc, hch⟩
  single := by
    intro n hn n' hn' k k' h hh hh'
    obtain ⟨c, hc, hch, hp, -⟩ := hg.exists_held hn hh
    obtain ⟨c', hc', hch', hp', -⟩ := hg.exists_held hn' hh'
    rw [hg.eq_of_handle_eq hc' hc (hch'.trans hch.symm), hp] at hp'
    injection hp' with hp'
    injection hp' with ho hk
    exact ⟨hg.eq_of_handle_eq hn hn' ho, hk⟩
  grounded := by
    intro n hn
    obtain ⟨l, hl⟩ := hg.rooted (hg.mem_nodes_iff_get?.mp hn)
    exact ⟨l, hl, hl.nodup⟩
  values := by
    intro n hn slot s h hs ht
    obtain ⟨-, spec, hcon⟩ := hg.sound (hg.mem_nodes_iff_get?.mp hn)
    obtain ⟨c, hc, hch, -, sk, hsk, hfits⟩ := hg.exists_held hn (.value hs ht)
    rw [hcon.socket?_value ((Table.get?_eq_some_iff hcon.nodup_valueSlots).mpr hs)] at hsk
    cases hsk
    exact ⟨c, hc, hch, hfits⟩
  statements := by
    intro n hn slot h hs
    obtain ⟨-, spec, hcon⟩ := hg.sound (hg.mem_nodes_iff_get?.mp hn)
    obtain ⟨c, hc, hch, -, sk, hsk, hfits⟩ := hg.exists_held hn (.statement hs)
    have hpos : ChainPosition.IsOf n (.slot slot) := Table.contains_iff.mpr (mem_map_of_mem hs)
    have hsocket : n.socket? slot = some .chain := ChainPosition.socket?_eq hcon hpos
    rw [hsocket] at hsk
    cases hsk
    exact ⟨c, hc, hch, hfits⟩
  nexts := by
    intro n hn h hnext
    obtain ⟨c, hc, -, hst, hcst⟩ := hg.exists_next (hg.mem_nodes_iff_get?.mp hn) hnext
    exact ⟨hst, c, mem_nodes_iff.mpr ⟨h, hc⟩, hg.handle_eq hc, hcst⟩
  tasks := by
    intro n hn hkind
    have hget := hg.mem_nodes_iff_get?.mp hn
    have hsort : n.isValue = false ∧ n.isStatement = false := by
      unfold Node.isValue Node.isStatement
      rcases hkind with hkind | hkind <;> rw [hkind] <;> exact ⟨rfl, rfl⟩
    constructor
    · by_contra hp
      obtain ⟨p, hp⟩ := Option.ne_none_iff_exists'.mp hp
      obtain ⟨m, -, -, ht⟩ := hg.exists_owner hget hp
      rcases isValue_or_isStatement_of_takes ht with h | h
      · rw [hsort.1] at h; cases h
      · rw [hsort.2] at h; cases h
    · by_contra hnext
      obtain ⟨h, hnext⟩ := Option.ne_none_iff_exists'.mp hnext
      obtain ⟨-, -, -, hst, -⟩ := hg.exists_next hget hnext
      rw [hsort.2] at hst
      cases hst

end Forest

theorem handle_of_create (hg : g.Forest) {tag : String} {i : BlockInit} {h : Handle} {e : Edit}
    (he : g.create tag i = .ok (h, e)) : h = g.nextHandle := (hg.create he).2

end Graph

/-- **Whatever commands are performed, the graph is a well-formed typed forest**, and no handle is issued
twice: the next handle never goes down, a handle that was issued and stands for no block never stands
for one again, and a new block gets the next handle. -/
theorem Editor.typedForest_run (validators : Nat) (cs ds : List Command) :
    (Editor.run { validators } cs).graph.TypedForest
      ∧ (Editor.run { validators } cs).graph.nextHandle
          ≤ (Editor.run { validators } (cs ++ ds)).graph.nextHandle
      ∧ (∀ h, h < (Editor.run { validators } cs).graph.nextHandle →
          (Editor.run { validators } cs).graph.get? h = none →
          (Editor.run { validators } (cs ++ ds)).graph.get? h = none)
      ∧ ∀ tag init h edit, (Editor.run { validators } cs).graph.create tag init = .ok (h, edit) →
          h = (Editor.run { validators } cs).graph.nextHandle := by
  have hcs : (Editor.run { validators } cs).graph.Forest :=
    (Editor.leadsTo_run (e := { validators }) .empty).forest
  have hrun : Editor.run { validators } (cs ++ ds) = (Editor.run { validators } cs).run ds :=
    List.foldl_append
  have hds : (Editor.run { validators } cs).graph.LeadsTo
      ((Editor.run { validators } cs).run ds).graph := Editor.leadsTo_run hcs
  rw [hrun]
  exact ⟨hcs.typedForest, hds.next_le, fun h hlt hn => hds.gone hlt hn,
    fun tag init h edit he => handle_of_create hcs he⟩

end NqcBlocks
