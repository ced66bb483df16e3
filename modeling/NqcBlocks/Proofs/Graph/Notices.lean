import NqcBlocks.Proofs.Graph.Partition

/-!
# What listeners are told

A command is refused, clears the graph, or makes one edit (`Editor.perform_cases`). From this it follows
what those who listen to a graph can rely on. A refused command leaves everything as it was and tells
nobody. The events of a command that is performed account for what it does to the graph, up to the
flags that validators set in answer to them.
-/

namespace NqcBlocks

open Graph List Option

variable {g : Graph}

/-! ## Refused commands -/

namespace Editor

theorem perform_cases {e : Editor} (hg : e.graph.Forest) (c : Command) :
    c = .clear ∨ (∃ cause, e.perform c = (e, .error cause))
      ∨ ∃ edit, e.graph.Done c.early edit ∧ e.perform c = (e.commit edit, .ok ()) := by
  have hedits : c = .clear ∨ ∃ f, c.edits e.graph = [f] := by
    cases c with
    | clear => exact .inl rfl
    | _ => exact .inr ⟨_, rfl⟩
  refine hedits.imp_right fun ⟨f, hf⟩ => ?_
  have hdone : ∀ {edit}, f e.graph = .ok edit → e.graph.Done c.early edit := fun hedit =>
    c.done hg (show f ∈ c.edits e.graph from hf ▸ mem_singleton_self f) hedit
  rw [perform_eq hg, hf, applyAll_singleton, apply_eq fun hedit => (hdone hedit).lost]
  cases hedit : f e.graph with
  | error cause => exact .inl ⟨cause, rfl⟩
  | ok edit => exact .inr ⟨edit, hdone hedit, rfl⟩

def watchedLoop : Editor := { graph := countedLoop, validators := 1 }

end Editor

/-! ## Events account for changes -/

def Node.unflagged (n : Node) : Node := { n with enabled := true, warning := none }

namespace Graph

/-- **Two graphs differ in flags at most.** -/
structure SameButFlags (g g' : Graph) : Prop where
  next : g'.nextHandle = g.nextHandle
  get? : ∀ h, (g'.get? h).map Node.unflagged = (g.get? h).map Node.unflagged

theorem SameButFlags.setFlags {g' : Graph} {h : Handle} {enabled : Bool} {warning : Option String}
    (hs : g.SameButFlags g') : g.SameButFlags (g'.setFlags h enabled warning) where
  next := (nextHandle_modify _ _ _).trans hs.next
  get? := by
    intro x
    rw [← hs.get?]
    unfold Graph.setFlags
    rw [get?_modify]
    split
    · rw [Option.map_map]
      rfl
    · rfl

end Graph

namespace Editor

theorem sameButFlags_commit (e : Editor) (edit : Edit) : edit.graph.SameButFlags (e.commit edit).graph :=
  foldl_tell_induct (P := edit.graph.SameButFlags) .setFlags (e := { e with graph := edit.graph }) ⟨rfl, fun _ => rfl⟩

/-- **The events of a command account for what it does**: for the graph `g'` that it leaves itself, of
which what validators make differs in flags at most. -/
theorem accounts_of_perform {e e' : Editor} (he : e.graph.Reachable) {c : Command}
    (hc : e.perform c = (e', .ok ())) : ∃ events g', e'.log = e.log ++ events
      ∧ e.graph.Accounts events g' ∧ g'.SameButFlags e'.graph ∧ (e.validators = 0 → e'.graph = g') := by
  rcases perform_cases he.forest c with rfl | ⟨cause, h⟩ | ⟨edit, hdone, h⟩
  · obtain ⟨e₁, h, hnone, hlog⟩ := perform_clear he.forest
    cases hc.symm.trans h
    refine ⟨_, e'.graph, hlog, .of_removed he.forest _ he.forest.nodup_topBlocks_subtrees
      (fun r hr => (he.forest.parent?_of_mem_topBlocks hr).1) (fun x => iff_of_true (hnone x) ?_)
      (fun _ hn' => by cases (hnone _).symm.trans hn'), ⟨rfl, fun _ => rfl⟩, fun _ => rfl⟩
    cases hx : e.graph.get? x with
    | none => exact .inr rfl
    | some n =>
      have hn : n ∈ e.graph.nodes := mem_nodes_iff.mpr ⟨x, hx⟩
      exact .inl (List.mem_map.mpr ⟨n, he.forest.mem_topBlocks_subtrees_iff.mpr hn, he.forest.handle_eq hx⟩)
  · cases hc.symm.trans h
  · cases hc.symm.trans h
    exact ⟨_, edit.graph, log_commit e edit, hdone.accounts, sameButFlags_commit e edit,
      fun hv => (commit_of_unwatched hv edit).1⟩

/-- The bound of the loop makes room for another number. -/
theorem accounts_of_perform_bound : ∃ e' g', watchedLoop.perform (.connectValue 3 "TIMES" 6) = (e', .ok ())
    ∧ countedLoop.Accounts [⟨.move, 5, .number, none⟩, ⟨.move, 6, .number, some "TIMES"⟩] g'
    ∧ g'.SameButFlags e'.graph := by
  have hok : (watchedLoop.perform (.connectValue 3 "TIMES" 6)).2.isOk = true := by decide +kernel
  have hlog : (watchedLoop.perform (.connectValue 3 "TIMES" 6)).1.log
      = [⟨.move, 5, .number, none⟩, ⟨.move, 6, .number, some "TIMES"⟩] := by
    decide +kernel
  cases hc : (watchedLoop.perform (.connectValue 3 "TIMES" 6)).2 with
  | error cause => rw [hc] at hok; cases hok
  | ok _ =>
    obtain ⟨events, g', hevents, haccounts, hsame, -⟩ :=
      accounts_of_perform (e := watchedLoop) reachable_countedLoop (Prod.ext rfl hc)
    cases hlog.symm.trans hevents
    exact ⟨_, g', Prod.ext rfl hc, haccounts, hsame⟩

end Editor

/-! ## What is seen when an event is told -/

namespace Graph

end Graph

namespace Editor

end Editor

end NqcBlocks
