import NqcBlocks.Proofs.Program.Isolation
import NqcBlocks.Proofs.Program.Parallel
import NqcBlocks.Proofs.Program.Renaming

/-!
# Disabling is removing

A disabled statement that is plugged in can as well be taken out of its chain, and a disabled value without
remarks out of its socket: the program stays the same, its text and its warnings, as long as the names in use in
the graph stay the same ones (`disabled_as_removed`).
-/

namespace NqcBlocks

open Gen List Option Generation Plan Context

variable {g g' : Graph} {r : Resolver} {n : Node}

/-! ## Sections -/

namespace Graph

theorem Forest.flatten_chainsOf (hg : g.Forest) {h : Handle} (hn : g.get? h = some n) (k : String) :
    (chainsOf g (n.at? k).toList).flatten = g.trees (n.at? k) := by
  cases hat : n.at? k with
  | none => exact (g.trees_none).symm
  | some c =>
    obtain ⟨m, hm, -⟩ := hg.exists_child hn hat
    show [g.headTrees c].flatten = _
    rw [flatten_singleton, hg.headTrees_eq hm]

namespace PrunesAlike

theorem exists_top (h : g.PrunesAlike g') (hn : g.get? n.handle = some n) (hp : n.parent = none) :
    ∃ n', g'.get? n.handle = some n' ∧ n'.content = n.content := by
  have hmem : n.content ∈ g'.topBlocks.map Node.content := by
    rw [h.tops]
    exact List.mem_map_of_mem (h.forest.mem_topBlocks_iff.mpr ⟨hn, hp⟩)
  obtain ⟨n', hn', hcontent⟩ := List.mem_map.mp hmem
  have hhandle : n'.content.handle = n.content.handle := by rw [hcontent]
  exact ⟨n', hhandle ▸ (h.forest'.mem_topBlocks_iff.mp hn').1, hcontent⟩

theorem prunedChain_chainsOf (h : g.PrunesAlike g') : ∀ {heads : List Handle},
    (∀ x ∈ heads, ∃ n n', g.get? x = some n ∧ g'.get? x = some n') → reviseChain pruning (chainsOf g heads).flatten
        = reviseChain pruning (chainsOf g' heads).flatten
  | [], _ => rfl
  | x :: heads, hheads => by
    obtain ⟨n, n', hn, hn'⟩ := hheads x mem_cons_self
    have hrest := h.prunedChain_chainsOf fun y hy => hheads y (mem_cons_of_mem _ hy)
    show reviseChain pruning (g.headTrees x ++ (chainsOf g heads).flatten)
      = reviseChain pruning (g'.headTrees x ++ (chainsOf g' heads).flatten)
    rw [reviseChain_append, reviseChain_append, h.chain hn hn', hrest]

end PrunesAlike

end Graph

namespace Generation

variable {options : Options}

theorem parallel_taskHead (h : g.PrunesAlike g') (hn : g.get? n.handle = some n)
    (hk : n.kind = .mainTask ∨ n.kind = .namedTask) :
    (parallel r).Rel ((parallel r).SameTask g g') (taskHead g n.handle) (taskHead g' n.handle) := by
  have hp := (h.forest.mem_topBlocks_iff.mp (h.forest.mem_topBlocks_of_isTask hn hk)).2
  obtain ⟨n', hn', hcontent⟩ := h.exists_top hn hp
  have hhandle := h.forest'.handle_eq hn'
  have hkind : n'.content.kind = n.content.kind := by rw [hcontent]
  have hlines : n'.content.commentLines = n.content.commentLines := by rw [hcontent]
  obtain ⟨body, hbody, hheads⟩ := statementTarget_task h.forest hn hk
  obtain ⟨body', hbody', hheads'⟩ := statementTarget_task h.forest' (hhandle ▸ hn') (hkind ▸ hk)
  rw [hhandle] at hbody'
  have hslots : n.statementSlots.names = ["STATEMENTS"] := by
    obtain ⟨-, spec, hc⟩ := h.forest.sound hn
    exact hc.taskSlots hk
  refine Comparison.taskHead ?_ fun name key => ?_
  · rw [Graph.lastState?_of_get? hn, Graph.lastState?_of_get? hn', getD_some, getD_some,
      show (parallel r).spell = fun _ name => name from rfl, n.respell_id, hcontent]
  · rw [hbody, hbody']
    refine .pure ⟨rfl, rfl, rfl, ?_, sameChains_of_pruned h.catalog_eq ?_⟩
    · rw [bind_some, bind_some, Graph.lastState?_of_get? hn, Graph.lastState?_of_get? hn']
      exact congrArg some hlines
    · rw [hheads, hheads', h.forest.flatten_chainsOf hn, h.forest'.flatten_chainsOf hn']
      exact h.body hn hn' "STATEMENTS" (by rw [hslots]; exact mem_singleton_self _)

theorem sameSection_of_prunesAlike (h : g.PrunesAlike g') {r₀ : Resolver} {sec : Section}
    (hsec : sec ∈ sections options (g.plan r₀)) : (parallel r).SameSection g g' sec := by
  have hloose : (parallel r).SameChains g g' (g.plan r₀).loose (g.plan r₀).loose := by
    refine sameChains_of_pruned h.catalog_eq (h.prunedChain_chainsOf fun x hx => ?_)
    obtain ⟨n, ⟨hn, -, hp, -⟩, rfl⟩ := h.forest.mem_plan_loose.mp hx
    obtain ⟨n', hn', -⟩ := h.exists_top hn hp
    exact ⟨n, n', hn, hn'⟩
  rcases mem_sections_iff.mp hsec with ⟨-, rfl⟩ | ⟨-, -, rfl⟩ | ⟨root, hroot, rfl⟩ | ⟨-, rfl⟩
  · exact .preamble _
  · exact .global hloose
  · obtain ⟨n, ⟨hn, -, hk⟩, rfl⟩ := h.forest.mem_plan_tasks.mp hroot
    exact .task (parallel_taskHead h hn (hk.imp (·.1) (·.1)))
  · exact .main hloose

/-! ## Programs -/

theorem exists_sound {r r' : Resolver} (hpolicy : r'.policy = r.policy)
    (htaken : ∀ name, name ∈ r'.taken ↔ name ∈ r.taken) (hnew : r.renamed = [])
    (hnew' : r'.renamed = []) : ∃ r₀ : Resolver, r₀.Sound r ∧ r₀.Sound r' := by
  classical
  -- without repetitions the names are no more than either resolver has
  have hmem : ∀ s, Name.text s ∈ r.taken.dedup ↔ Name.text s ∈ r.taken := fun s => mem_dedup
  have hsub : r.taken.dedup ⊆ r'.taken := fun name h => (htaken name).mpr (mem_dedup.mp h)
  refine ⟨{ policy := r.policy, taken := r.taken.dedup }, ⟨rfl, dedup_subset _, ?_, ?_⟩, ⟨hpolicy, hsub, ?_, ?_⟩⟩
  · simp [hnew, hmem]
  · simp [hnew]
  · simp [hnew', hmem, htaken]
  · simp [hnew']

theorem notes_of_emitPlanned (hg : g.Forest) {d : Context}
    (h : exec (emitPlanned g) { start options with names := g.resolver options.policy }
      = (.ok (), d)) : d.notes = [] := by
  rw [← exec_emitProgram hg.isNamed, emitProgram_eq, map_eq_pure_bind] at h
  rcases exec_recordProgram hg options with ⟨-, names, hrec⟩ | ⟨u, -, -, c, hrec, -⟩ | ⟨n, -, -, c, hrec, -⟩
  · rw [exec_bind_ok hrec] at h
    cases h
    rfl
  · rw [exec_bind_error hrec] at h
    cases h
  · rw [exec_bind_error hrec] at h
    cases h

theorem agrees_emitPlanned (h : g.PrunesAlike g')
    (hnames : ∀ name, name ∈ g'.userNames ↔ name ∈ g.userNames) (options : Options) :
    let p := exec (emitPlanned g) { start options with names := g.resolver options.policy }
    let p' := exec (emitPlanned g') { start options with names := g'.resolver options.policy }
    ∃ r, (parallel r).Agrees Eq p.1 p'.1 ∧ p.2.Parallel r p'.2 := by
  intro p p'
  obtain ⟨r, hr, hr'⟩ : ∃ r : Resolver, r.Sound (g.resolver options.policy)
      ∧ r.Sound (g'.resolver options.policy) := exists_sound rfl hnames rfl rfl
  have htops : g'.topBlocks.map Node.content = g.topBlocks.map fun n => (n.respell (parallel r).spell).content := by
    rw [h.tops]
    exact map_congr_left fun n _ => congrArg Node.content n.respell_id.symm
  have hstart : Context.Parallel r { start options with names := g.resolver options.policy }
      { start options with names := g'.resolver options.policy } := ⟨rfl, hr, hr', rfl, rfl, rfl⟩
  have hplan := agrees_of_rel (Comparison.plan h.catalog_eq htops) hstart
  rcases hexec : exec (ofGraph g)
    { start options with names := g.resolver options.policy } with ⟨o, d⟩
  rcases hexec' : exec (ofGraph g')
    { start options with names := g'.resolver options.policy } with ⟨o', d'⟩
  rw [hexec, hexec'] at hplan
  obtain ⟨hagrees, hd⟩ := hplan
  refine ⟨r, ?_⟩
  show (parallel r).Agrees Eq (exec (ofGraph g >>= emitPlan g) _).1 (exec (ofGraph g' >>= emitPlan g') _).1
    ∧ (exec (ofGraph g >>= emitPlan g) _).2.Parallel r (exec (ofGraph g' >>= emitPlan g') _).2
  cases hagrees with
  | error he =>
    rw [exec_bind_error hexec, exec_bind_error hexec']
    exact ⟨.error he, hd⟩
  | ok hp =>
    rw [exec_bind_ok hexec, exec_bind_ok hexec', exec_emitPlan, exec_emitPlan]
    -- making a plan changes nothing but what has been renamed
    have hends {g : Graph} (hg : g.Forest) : Ends g (g.resolver options.policy) (ofGraph g)
        (.start options) _ (g.plan (g.resolver options.policy)) (.start options) := ends_plan hg rfl _
    obtain ⟨-, hplanned, names, rfl⟩ := (hends h.forest).eq_of_ok (.refl rfl) hexec
    obtain ⟨-, -, names', rfl⟩ := (hends h.forest').eq_of_ok (.refl rfl) hexec'
    subst hp hplanned
    have hsections : (parallel r).Rel Eq (emitSections g (sections options (g.plan (g.resolver options.policy))))
        (emitSections g' (sections options (g.plan (g.resolver options.policy)))) :=
      reporting_parallel.emitSections fun _ hsec => sameSection_of_prunesAlike h hsec
    exact agrees_of_rel (hsections.andThen fun _ => reporting_parallel.report rfl)
      ⟨rfl, hd.names, hd.names', rfl, rfl, rfl⟩

/-- **Two graphs have the same program**, which is the same text with the same warnings; or for the same reason
they have none, a name that is reserved or a remark that is no text. -/
def SameProgram (g g' : Graph) (options : Options) : Prop :=
  (∃ text, code g options = .ok text ∧ code g' options = .ok text
    ∧ CodeReport.warnings (run g' options).1 = CodeReport.warnings (run g options).1)
  ∨ (∃ u, code g options = .error (.reserved u) ∧ code g' options = .error (.reserved u))
  ∨ ∃ n, g.get? n.handle = some n ∧ n.HasOddRemark
    ∧ code g options = .error (.defect (.commentNotText n.handle))
    ∧ code g' options = .error (.defect (.commentNotText n.handle))

theorem code_of_run_error {e : GenError} (h : (run g options).2 = some e) : code g options = .error e := by
  unfold code
  rw [show run g options = ((run g options).1, some e) from Prod.ext rfl h]

theorem sameProgram_of_prunesAlike (h : g.PrunesAlike g')
    (hnames : ∀ name, name ∈ g'.userNames ↔ name ∈ g.userNames) (options : Options) :
    SameProgram g g' options := by
  obtain ⟨r, hagrees, hd⟩ := agrees_emitPlanned h hnames options
  have hrun := run_of_isNamed h.forest.isNamed options
  have hrun' := run_of_isNamed h.forest'.isNamed options
  rcases hexec : exec (emitPlanned g)
    { start options with names := g.resolver options.policy } with ⟨o, d⟩
  rcases hexec' : exec (emitPlanned g')
    { start options with names := g'.resolver options.policy } with ⟨o', d'⟩
  rw [hexec, hexec'] at hagrees hd
  rw [hexec] at hrun
  rw [hexec'] at hrun'
  cases hagrees with
  | ok hab =>
    have hwarnings := hd.warnings
    unfold warnings at hwarnings
    rw [notes_of_emitPlanned h.forest hexec, notes_of_emitPlanned h.forest' hexec'] at hwarnings
    refine .inl ⟨CodeReport.code d.reports, ?_, ?_, ?_⟩
    · unfold code
      rw [hrun]
    · unfold code
      rw [hrun', ← hd.code]
    · rw [hrun, hrun']
      simpa using hwarnings
  | @error e e' he =>
    -- what a forest can fail for has nothing to do with links
    have hsame : e' = e := by
      rw [← revise_of_run h.forest (congrArg Prod.snd hrun) Node.content,
        ← revise_of_run h.forest' (congrArg Prod.snd hrun') Node.content]
      exact he
    subst hsame
    rcases run_outcome h.forest options with ⟨-, hok⟩ | ⟨u, -, -, hreserved⟩ | ⟨n, hn, hodd, hdefect⟩
    · cases congrArg Prod.snd (hrun.symm.trans hok)
    · cases (congrArg Prod.snd hrun).symm.trans hreserved
      exact .inr (.inl ⟨u, code_of_run_error hreserved, code_of_run_error (congrArg Prod.snd hrun')⟩)
    · cases (congrArg Prod.snd hrun).symm.trans hdefect
      exact .inr (.inr ⟨n, hn, hodd, code_of_run_error hdefect, code_of_run_error (congrArg Prod.snd hrun')⟩)

end Generation

end NqcBlocks
