import NqcBlocks.Proofs.Program.Agreement

/-!
# Tasks that are started are defined

Three places deal with the names of tasks by themselves: validation, which disables tasks, the plan,
which tells tasks apart by what their names are resolved to, and the blocks that start and stop tasks,
which resolve the names they hold. This module puts them together. `Nqc.commandsIn` are the commands to
tasks in some statements, and those in the code of a section are those of the blocks rendered in it
(`mem_commands_record`). A task of the name that such a command has is defined if and only if a block of
that name is a task of the program (`exists_defines_iff`), and after validation one is, unless the name
is reserved.
-/

namespace NqcBlocks

open List Option Compilation

variable {n : Node} {g : Graph} {options : Options} {command : String → Stmt} {s : Stmt}

namespace Nqc

mutual
def Stmt.commands : Stmt → List Stmt
  | .comment _ => []
  | .call _ _ => []
  | .assign _ _ => []
  | .expression _ => []
  | .start task => [.start task]
  | .stop task => [.stop task]
  | .repeatTimes _ body => commandsIn body
  | .forever body => commandsIn body
  | .doUntil body _ => commandsIn body
  | .branches arms none => commandsInArms arms
  | .branches arms (some otherwise) => commandsInArms arms ++ commandsIn otherwise
def commandsIn : List Stmt → List Stmt
  | [] => []
  | s :: rest => s.commands ++ commandsIn rest
def commandsInArms : List (Expr × List Stmt) → List Stmt
  | [] => []
  | (_, body) :: rest => commandsIn body ++ commandsInArms rest
end

theorem commandsIn_append (xs ys : List Stmt) : commandsIn (xs ++ ys) = commandsIn xs ++ commandsIn ys := by
  induction xs with
  | nil => rfl
  | cons x xs ih => rw [cons_append, commandsIn, commandsIn, ih, append_assoc]

theorem mem_commandsInArms : ∀ {arms : List (Expr × List Stmt)},
    s ∈ commandsInArms arms ↔ ∃ arm ∈ arms, s ∈ commandsIn arm.2
  | [] => by simp [commandsInArms]
  | (condition, body) :: rest => by
    rw [commandsInArms, mem_append, mem_commandsInArms, exists_mem_cons_iff]

theorem commandsIn_withComments (remarks : String) (statements : List Stmt) :
    commandsIn (withComments remarks statements) = commandsIn statements := by
  unfold withComments
  split <;> rfl

end Nqc

open Nqc

def BlockKind.command? : BlockKind → Option (String → Stmt)
  | .startTask => some .start
  | .stopTask => some .stop
  | _ => none

/-! ## What blocks command -/

def BlockTree.Gives (σ : Spelling) (p : BlockTree) (s : Stmt) : Prop :=
  ∃ command, p.node.kind.command? = some command ∧ s = command (σ.name .task (p.node.text "NAME"))

section Trees

variable {σ : Spelling}

variable {spec : BlockSpec} {counter : Bool} {expr : String → Expr} {body : String → List Stmt} {t : BlockTree}

theorem mem_commands_conditional (hc : n.Conforms spec) (hk : n.kind = .conditional) (hshape : spec.shape = .branches) :
    s ∈ commandsIn (nodeStmts σ n counter expr body)
      ↔ ∃ slot ∈ n.statementSlots.names, s ∈ commandsIn (body slot) := by
  obtain ⟨count, hasElse, -, hstatements, hlength, helse⟩ := hc.branchSlots hshape
  have harms : s ∈ commandsInArms (arms expr body (count + 1))
      ↔ ∃ slot ∈ (List.range (count + 1)).map ("DO" ++ Number.natText ·), s ∈ commandsIn (body slot) := by
    rw [mem_commandsInArms]
    simp only [arms, List.mem_map, exists_exists_and_eq_and]
  unfold nodeStmts
  rw [hk]
  dsimp only
  rw [hlength, helse, hstatements]
  cases hasElse with
  | false => simp [commandsIn, Stmt.commands, harms]
  | true => simp [commandsIn, Stmt.commands, harms, or_and_right, exists_or]

theorem mem_commands_nodeStmts (hc : n.Conforms spec) (hren : n.kind.isRenderable = true) :
    s ∈ commandsIn (nodeStmts σ n counter expr body)
      ↔ (∃ command, n.kind.command? = some command ∧ s = command (σ.name .task (n.text "NAME")))
        ∨ ∃ slot ∈ n.statementSlots.names, s ∈ commandsIn (body slot) := by
  have hknown := hc.known
  cases hk : n.kind <;> rw [hk] at hknown hren <;> cases hknown <;> cases hren
  case conditional =>
    rw [mem_commands_conditional hc hk rfl]
    simp [BlockKind.command?]
  case repeatTimes =>
    rw [(hc.slotNames rfl).2]
    cases counter <;> simp [nodeStmts, hk, commandsIn, Stmt.commands, BlockKind.command?]
  all_goals
    rw [(hc.slotNames rfl).2]
    simp [nodeStmts, hk, commandsIn, Stmt.commands, BlockKind.command?, setPower, motorOn, constantCall,
      sensorSetup, Builtin.sensorSetup, Builtin.sensorValue]

theorem BlockTree.Sound.isValue_of_mem_parts (ht : t.Sound g) (hval : t.node.isValue = true) : ∀ p ∈ t.parts, p.node.isValue = true := by
  induction ht, hval using BlockTree.Sound.induct_value with
  | value hn hval ih =>
    intro p hp
    obtain ⟨-, rfl | hp | hp⟩ := mem_parts_iff.mp hp
    · exact hval
    · obtain ⟨slot, t, hmem, hp⟩ := mem_operandParts.mp hp
      exact ih hmem p hp
    · cases hp

theorem not_gives_of_isValue {p : BlockTree} (hp : p.node.isValue = true) : ¬ p.Gives σ s := by
  rintro ⟨command, hcommand, -⟩
  unfold Node.isValue at hp
  cases hk : p.node.kind <;> rw [hk] at hp hcommand
  case startTask | stopTask => exact absurd hp (by decide)
  all_goals cases hcommand

theorem BlockTree.Sound.mem_commands_stmts (ht : t.Sound g) (hren : t.node.kind.isRenderable = true) :
    s ∈ commandsIn (t.stmts σ) ↔ ∃ p ∈ t.parts, p.Gives σ s := by
  induction ht, hren using BlockTree.Sound.induct_code with
  | @code n spec operands bodies hn hren ih =>
    by_cases hen : n.enabled = true
    · have hvalues : ¬ ∃ p ∈ operandParts operands, p.Gives σ s := by
        rintro ⟨p, hp, hgives⟩
        obtain ⟨slot, t, hmem, hp⟩ := mem_operandParts.mp hp
        exact not_gives_of_isValue ((hn.operand hmem).isValue_of_mem_parts (hn.isValue hmem) p hp) hgives
      have hchains := exists_bodyStmts_iff (σ := σ) (Q := fun code => s ∈ commandsIn code)
        hn.nodup_bodies fun hmem => holds_chainStmts_iff (Q := fun code => s ∈ commandsIn code)
          not_mem_nil (fun xs ys => by rw [commandsIn_append, mem_append]) (ih hmem)
      rw [BlockTree.stmts, if_pos hen, commandsIn_withComments, mem_commands_nodeStmts hn.conforms hren,
        ← hn.bodyNames, hchains, exists_parts_iff (n := n) hen]
      simp only [hvalues, false_or]
      rfl
    · rw [BlockTree.stmts, if_neg hen, BlockTree.parts_of_disabled (t := .mk n true operands bodies) hen]
      simp [commandsIn]

end Trees

/-! ## Sections -/

namespace Generation

open Graph

variable {r : Resolver}

theorem mem_commands_chains (hg : g.Forest) {key : ScopeKey} {heads : List Handle} (hheads : Heads g heads) :
    s ∈ commandsIn (chainStmts (spellingOf g r key heads) (treesOf g heads))
      ↔ ∃ n, (∃ h ∈ heads, Relation.ReflTransGen g.Follows h n.handle)
        ∧ g.get? n.handle = some n ∧ n.enabled = true
        ∧ ∃ command, n.kind.command? = some command ∧ s = command (r.spell .task (n.text "NAME")) := by
  have hparts : s ∈ commandsIn (chainStmts (spellingOf g r key heads) (treesOf g heads))
      ↔ ∃ p ∈ chainParts (treesOf g heads), p.Gives (spellingOf g r key heads) s :=
    holds_chainStmts_iff (Q := fun code => s ∈ commandsIn code) not_mem_nil
      (fun xs ys => by rw [commandsIn_append, mem_append]) fun t ht =>
        (hheads.trees hg t ht).1.mem_commands_stmts (hheads.trees hg t ht).2
  rw [hparts]
  constructor
  · rintro ⟨p, hp, hgives⟩
    obtain ⟨h, hh, n, hx, hn, hen, rfl⟩ := (mem_parts_treesOf hg hheads).mp hp
    unfold BlockTree.Gives at hgives
    rw [hg.node_tree hn] at hgives
    exact ⟨n, ⟨h, hh, hx⟩, hn, hen, hgives⟩
  · rintro ⟨n, ⟨h, hh, hx⟩, hn, hen, hgives⟩
    refine ⟨g.tree n, (mem_parts_treesOf hg hheads).mpr ⟨h, hh, n, hx, hn, hen, rfl⟩, ?_⟩
    unfold BlockTree.Gives
    rw [hg.node_tree hn]
    exact hgives

theorem rendered_iff (hg : g.Forest) (r : Resolver) (options : Options) :
    g.Rendered n ↔ ∃ sec ∈ sections options (g.plan r), g.RenderedIn sec n := by
  constructor
  · rintro ⟨hget, hen, start, hstart, hx⟩
    cases hstart with
    | @task root h hplanned hholds =>
      exact ⟨.task root.handle, task_mem_sections_iff.mpr (hg.mem_plan_tasks.mpr ⟨root, hplanned, rfl⟩),
        hget, hen, start, .task hplanned.1 hholds, hx⟩
    | @loose m hm =>
      have hmem := hg.mem_plan_loose (r := r).mpr ⟨m, hm, rfl⟩
      obtain ⟨sec, ⟨hsec, hof⟩, -⟩ := existsUnique_loose? (ne_nil_of_mem hmem) options
      exact ⟨sec, hsec, hget, hen, _, Section.starts_of_loose? hof hmem, hx⟩
  · rintro ⟨sec, hsec, hget, hen, start, hstart, hx⟩
    refine ⟨hget, hen, start, ?_, hx⟩
    have hloose : ∀ {loose}, sec.loose? = some loose → start ∈ loose → g.Starts start := by
      intro loose hof hmem
      rw [loose_of_mem_sections hsec hof] at hmem
      obtain ⟨m, hm, rfl⟩ := hg.mem_plan_loose.mp hmem
      exact .loose hm
    cases hstart with
    | global hmem => exact hloose rfl hmem
    | task hm hholds =>
      obtain ⟨root, hroot, rfl⟩ := hg.mem_plan_tasks.mp (task_mem_sections_iff.mp hsec)
      cases hroot.1.symm.trans hm
      exact .task hroot hholds
    | main hmem => exact hloose rfl hmem

theorem mem_commands_record (hg : g.Forest) {record : SectionRecord} (hrecord : record ∈ programRecords g options) :
    s ∈ commandsIn record.code ↔ ∃ n, g.RenderedIn record.part n ∧ ∃ command, n.kind.command? = some command
        ∧ s = command ((g.resolver options.policy).spell .task (n.text "NAME")) := by
  obtain ⟨sec, hsec, hrecord⟩ := mem_flatMap.mp hrecord
  obtain ⟨key, heads, rfl, hheads, hstarts, -⟩ :=
    (sectionRecords_of_ready hg options (ready_sections hg options sec hsec)).2 record hrecord
  refine (mem_commands_chains hg hheads).trans ?_
  simp only [hstarts]
  constructor
  · rintro ⟨n, ⟨x, hx, hfollows⟩, hn, hen, hgives⟩
    exact ⟨n, ⟨hn, hen, x, hx, hfollows⟩, hgives⟩
  · rintro ⟨n, ⟨hn, hen, x, hx, hfollows⟩, hgives⟩
    exact ⟨n, ⟨x, hx, hfollows⟩, hn, hen, hgives⟩

theorem exists_record_iff (hg : g.Forest) {sec : Section} : (∃ record ∈ programRecords g options, record.part = sec)
      ↔ sec ∈ sections options (g.plan (g.resolver options.policy)) ∧ sec.isPreamble = false := by
  have hparts := parts_of_records (r := g.resolver options.policy) hg
    (ready_sections (r := g.resolver options.policy) hg options)
  rw [← Bool.not_eq_true', ← mem_filter (p := fun sec : Section => !sec.isPreamble), ← hparts]
  exact List.mem_map.symm

end Generation

/-- **A section defines a task of a name**: its scope is that of the task, and the header of the task, with
the declarations of the scope, is among the reports. -/
def SectionRecord.Defines (options : Options) (reports : List CodeReport) (w : String)
    (record : SectionRecord) : Prop :=
  ∃ s, record.opened = some s ∧ (s.key = .task w ∨ s.key = .main ∧ w = entryName)
    ∧ ∃ report ∈ reports, ∃ remark, report.newCode
      = some (remark ++ "task " ++ w ++ "()\n\x7b\n" ++ s.declarations options.indent)

theorem Resolver.forbids_spell {r : Resolver} {use : NameUse} {name : String}
    (h : r.policy.Allows ⟨name, use⟩) : use.forbids (r.spell use name) = false := by
  unfold spell
  cases hf : use.forbids name with
  | false => exact hf
  | true =>
    have hrename : r.policy = .rename := h.resolve_right fun hno => absurd (hf.symm.trans hno) nofun
    have hfree := r.isFree_freshName name
    unfold isFree at hfree
    rw [Bool.not_eq_true', Bool.or_eq_false_iff] at hfree
    rw [hrename]
    exact Bool.eq_false_iff.mpr fun hforbids =>
      Bool.eq_false_iff.mp hfree.2 (isReservedTask_of_forbids hforbids)

namespace Generation

open Graph

theorem exists_planned_of_key (hg : g.Forest) {record : SectionRecord}
    (hrecord : record ∈ programRecords g options) {s : Scope} (hs : record.opened = some s)
    {w : String} (hw : s.key = .task w) :
    ∃ m, g.Planned m ∧ m.kind = .namedTask
      ∧ w = (g.resolver options.policy).spell .task (m.text "NAME")
      ∧ record = recordOf g (g.resolver options.policy) (.task m.handle)
        (taskOf (g.resolver options.policy) m).key (taskOf (g.resolver options.policy) m).heads := by
  have hkey : ∀ {r key heads}, (scopeOf g r key heads).key = key := key_sectionScope _ _ _
  obtain ⟨sec, hsec, hrecord⟩ := mem_flatMap.mp hrecord
  cases ready_sections hg options sec hsec with
  | preamble text => cases hrecord
  | global hheads =>
    rw [mem_singleton.mp hrecord] at hs
    cases hs
    rw [hkey] at hw
    cases hw
  | @task n hn hk =>
    rw [sectionRecords, hn] at hrecord
    obtain rfl := mem_singleton.mp hrecord
    cases hs
    rw [hkey] at hw
    obtain ⟨m, hm, heq⟩ := hg.mem_plan_tasks.mp (task_mem_sections_iff.mp hsec)
    obtain rfl := hg.eq_of_handle_eq (hg.mem_nodes_iff_get?.mpr hn) (hg.mem_nodes_iff_get?.mpr hm.1) heq
    unfold taskOf at hw
    rcases hk with hk | ⟨hk, -⟩
    · rw [hk] at hw
      cases hw
    · rw [hk] at hw
      exact ⟨n, hm, hk, (ScopeKey.task.inj hw).symm, rfl⟩
  | main hheads =>
    rw [mem_singleton.mp hrecord] at hs
    cases hs
    rw [hkey] at hw
    cases hw

theorem defines_recordOf (hg : g.Forest) (options : Options) {m : Node} (hm : g.Planned m)
    (hk : m.kind = .namedTask) :
    (recordOf g (g.resolver options.policy) (.task m.handle)
        (taskOf (g.resolver options.policy) m).key (taskOf (g.resolver options.policy) m).heads).Defines
      options (programReports g options)
      ((g.resolver options.policy).spell .task (m.text "NAME")) := by
  have hsec : Section.task m.handle ∈ sections options (g.plan (g.resolver options.policy)) :=
    task_mem_sections_iff.mpr (hg.mem_plan_tasks.mpr ⟨m, hm, rfl⟩)
  have htask : taskOf (g.resolver options.policy) m
      = { name := (g.resolver options.policy).spell .task (m.text "NAME")
          key := .task ((g.resolver options.policy).spell .task (m.text "NAME"))
          root := m.handle, heads := (m.at? "STATEMENTS").toList } := by
    unfold taskOf
    rw [hk]
  refine ⟨_, rfl, .inl ?_,
    taskHeader g (g.resolver options.policy) options (taskOf (g.resolver options.policy) m), ?_,
    taskRemark g (taskOf (g.resolver options.policy) m), ?_⟩
  · rw [htask]
    exact key_sectionScope _ _ _
  · refine mem_append_left _ (mem_append_right _ (sectionReports_subset hsec ?_))
    rw [sectionReports, hm.1]
    exact mem_cons_self
  · unfold taskHeader
    rw [htask]

theorem exists_defines_iff (hg : g.Forest) (options : Options) {w : String} (hw : w ≠ entryName) :
    (∃ record ∈ programRecords g options, record.Defines options (programReports g options) w)
      ↔ ∃ m, g.Planned m ∧ m.kind = .namedTask
        ∧ w = (g.resolver options.policy).spell .task (m.text "NAME") := by
  constructor
  · rintro ⟨record, hrecord, s, hs, hopens, -⟩
    obtain ⟨m, hm, hk, heq, -⟩ := exists_planned_of_key hg hrecord hs (hopens.resolve_right fun h => hw h.2)
    exact ⟨m, hm, hk, heq⟩
  · rintro ⟨m, hm, hk, rfl⟩
    refine ⟨_, mem_flatMap.mpr ⟨.task m.handle, task_mem_sections_iff.mpr
      (hg.mem_plan_tasks.mpr ⟨m, hm, rfl⟩), ?_⟩, defines_recordOf hg options hm hk⟩
    rw [sectionRecords, hm.1]
    exact mem_singleton.mpr rfl

/-! ## Programs -/

theorem mem_names_of_command (h : n.kind.command? = some command) : ⟨n.text "NAME", .task⟩ ∈ n.names := by
  unfold Node.names
  cases hk : n.kind <;> rw [hk] at h <;> cases h <;> exact mem_singleton.mpr rfl

theorem name_of_command (hg : g.Forest) (hn : g.get? n.handle = some n) (h : n.kind.command? = some command) :
    n.text "NAME" ≠ "" ∧ .text (n.text "NAME") ∈ g.userNames := by
  obtain ⟨-, spec, hc⟩ := hg.sound hn
  have hfield : Builtin.identifier "NAME" Builtin.defaultTaskName ∈ spec.fields := by
    have hknown := hc.known
    cases hk : n.kind <;> rw [hk] at h hknown <;> cases h <;> cases hknown <;> exact mem_cons_self
  have hne : n.text "NAME" ≠ "" := by
    intro hempty
    rcases (hc.identifier hfield rfl).2 with ⟨-, hallowed⟩ | hname
    · cases hallowed
    · have hname : isName (n.text "NAME") = true := hname
      rw [hempty] at hname
      cases hname
  exact ⟨hne, hg.mem_userNames hn hc hfield rfl hne⟩

theorem name_of_planned (hg : g.Forest) {m : Node} (hm : g.Planned m) (hk : m.kind = .namedTask) :
    .text (m.text "NAME") ∈ g.userNames := hg.taskName_mem_userNames hm.1 hk (hm.named hk).1

theorem defines_iff_of_settled (hg : g.Forest) (hs : g.Settled) (options : Options)
    (hn : g.get? n.handle = some n) (hcommand : n.kind.command? = some command)
    (hallow : options.policy.Allows ⟨n.text "NAME", .task⟩)
    (htask : ∃ m ∈ g.nodes, m.kind = .namedTask ∧ m.text "NAME" = n.text "NAME") :
    (∃ record ∈ programRecords g options, record.Defines options (programReports g options)
        ((g.resolver options.policy).spell .task (n.text "NAME")))
      ↔ isReservedTask (n.text "NAME") = false := by
  obtain ⟨hne, htaken⟩ := name_of_command hg hn hcommand
  have hw : (g.resolver options.policy).spell .task (n.text "NAME") ≠ entryName := by
    intro heq
    have hfree := Resolver.forbids_spell (r := g.resolver options.policy) hallow
    rw [heq] at hfree
    cases hfree
  rw [exists_defines_iff hg options hw]
  constructor
  · rintro ⟨m, hm, hk, heq⟩
    rw [Resolver.spell_injective htaken (name_of_planned hg hm hk) heq]
    exact ((hs.enabled_namedTask_iff (hg.mem_nodes_iff_get?.mpr hm.1) hk).mp hm.2.1).2.1
  · intro hres
    obtain ⟨m₀, hm₀, hk₀, hname₀⟩ := htask
    obtain ⟨m, hm, ⟨hk, hname⟩, hfirst⟩ := exists_first
      (P := fun m => m.kind = .namedTask ∧ m.text "NAME" = n.text "NAME") hm₀ ⟨hk₀, hname₀⟩
    have hen : m.enabled = true := by
      refine (hs.enabled_namedTask_iff hm hk).mpr ⟨hname ▸ hne, hname ▸ hres, fun k hkm hkk hkn => ?_⟩
      exact hfirst k hkm ⟨hkk, hkn.trans hname⟩
    exact ⟨m, hg.planned_of_settled hs hm hen (by rw [hk]; rfl), hk, by rw [hname]⟩

theorem run_ofGraph (g : Graph) (options : Options) : run (ofGraph g options).graph options
      = ((ofGraph g options).reports, (ofGraph g options).error) := by
  simp only [ofGraph, if_true, Prod.mk.eta]

theorem forest_ofGraph (hg : g.Reachable) (options : Options) :
    (ofGraph g options).graph.Forest := hg.forest.validate.forest

theorem settled_ofGraph (hg : g.Reachable) (options : Options) :
    (ofGraph g options).graph.Settled := hg.forest.settled_validate

theorem exec_ofGraph (hg : g.Reachable) (options : Options) (herror : (ofGraph g options).error = none) :
    let c := ofGraph g options
    (∀ u ∈ programNames c.graph options, options.policy.Allows u)
      ∧ c.reports = programReports c.graph options
      ∧ ∃ p ctx, Gen.exec (recordProgram c.graph) (.start options)
        = (.ok (p, programRecords c.graph options), ctx) ∧ ctx.reports = c.reports := by
  intro c
  have hrun := run_ofGraph g options
  rw [herror] at hrun
  obtain ⟨hallow, hreports, ctx, hexec, hctx⟩ := exec_of_run (forest_ofGraph hg options) (congrArg Prod.snd hrun)
  have hsame : c.reports = programReports c.graph options := by rw [← hreports, hrun]
  exact ⟨hallow, hsame, _, ctx, hexec, hctx.trans hsame.symm⟩

theorem allows_of_rendered (hg : g.Forest)
    (hallow : ∀ u ∈ programNames g options, options.policy.Allows u) (hn : g.Rendered n)
    (hcommand : n.kind.command? = some command) : options.policy.Allows ⟨n.text "NAME", .task⟩ :=
  hallow _ ((mem_programNames_iff hg).mpr (.inr ⟨n, hn, mem_names_of_command hcommand⟩))

theorem allows_of_planned (hg : g.Forest)
    (hallow : ∀ u ∈ programNames g options, options.policy.Allows u) (hn : g.Planned n)
    (hk : n.kind = .namedTask) : options.policy.Allows ⟨n.text "NAME", .task⟩ :=
  hallow _ ((mem_programNames_iff hg).mpr
    (.inl ⟨n, hg.mem_nodes_iff_get?.mpr hn.1, hn.2.1, hk, (hn.named hk).1, rfl⟩))

theorem defines_iff_ofGraph (hg : g.Reachable) (options : Options) (herror : (ofGraph g options).error = none)
    (hn : (ofGraph g options).graph.Rendered n) (hcommand : n.kind.command? = some command)
    (htask : ∃ m ∈ g.nodes, m.kind = .namedTask ∧ m.text "NAME" = n.text "NAME") :
    (∃ record ∈ programRecords (ofGraph g options).graph options, record.Defines options (ofGraph g options).reports
        (((ofGraph g options).graph.resolver options.policy).spell .task (n.text "NAME")))
      ↔ isReservedTask (n.text "NAME") = false := by
  obtain ⟨hallow, hreports, -⟩ := exec_ofGraph hg options herror
  have hforest := forest_ofGraph hg options
  have hnodes : (ofGraph g options).graph.nodes = g.nodes.map fun n => n.flagged (g.due n) := hg.forest.nodes_validate
  obtain ⟨m, hm, hk, hname⟩ := htask
  rw [hreports]
  refine defines_iff_of_settled hforest (settled_ofGraph hg options) options hn.1 hcommand
    (allows_of_rendered hforest hallow hn hcommand) ⟨m.flagged (g.due m), ?_, hk, hname⟩
  rw [hnodes]
  exact List.mem_map_of_mem hm

theorem exists_rendered_first (hg : g.Forest) (h x : Handle) (kind : BlockKind) (name : String)
    (hroot : (g.get? h).map (fun n => (n.enabled, n.kind, n.at? "STATEMENTS")) = some (true, .mainTask, some x))
    (hfirst : ∀ m ∈ g.nodes, m.kind = .mainTask → h ≤ m.handle)
    (hn : (g.get? x).map (fun n => (n.enabled, n.kind, n.text "NAME")) = some (true, kind, name)) :
    ∃ n, g.Rendered n ∧ n.kind = kind ∧ n.text "NAME" = name := by
  obtain ⟨root, hget, htask⟩ := map_eq_some_iff.mp hroot
  obtain ⟨n, hn, hview⟩ := map_eq_some_iff.mp hn
  simp only [Prod.mk.injEq] at htask hview
  obtain rfl := hg.handle_eq hget
  obtain rfl := hg.handle_eq hn
  have hplanned : g.Planned root := ⟨hget, htask.1, .inl ⟨htask.2.1, fun m hm _ hk =>
    hfirst m (hg.mem_nodes_iff_get?.mpr hm) hk⟩⟩
  have hholds : root.Holds "STATEMENTS" n.handle :=
    (mem_heads_iff hg hget).mp (by rw [htask.2.2]; exact mem_singleton.mpr rfl)
  exact ⟨n, ⟨hn, hview.1, _, .task hplanned hholds, .refl⟩, hview.2⟩

/-- **Tasks that are started or stopped are defined.** When a graph is validated and its program can be
generated, the commands to tasks in the code of a section are those of the blocks rendered in it that
start or stop a task, each with what the name that the block holds is resolved to. If the graph has a
named task of that name, the program defines a task of the name that is written, except for names that
are reserved: there it defines none. -/
theorem commanded_iff_defined {g : Graph} (hg : g.Reachable) (options : Options)
    (herror : (Compilation.ofGraph g options).error = none) :
    let c := Compilation.ofGraph g options
    ∃ p records ctx, Gen.exec (recordProgram c.graph) (.start options) = (.ok (p, records), ctx)
      ∧ ctx.reports = c.reports
      ∧ (∀ record ∈ records, ∀ s, s ∈ commandsIn record.code → ∃ n command w r',
        c.graph.RenderedIn record.part n ∧ n.kind.command? = some command
          ∧ (c.graph.resolver options.policy).resolve .task (n.text "NAME") = .ok (w, r')
          ∧ s = command w)
      ∧ ∀ n command, c.graph.Rendered n → n.kind.command? = some command →
        ∃ w r', (c.graph.resolver options.policy).resolve .task (n.text "NAME") = .ok (w, r')
          ∧ (∃ record ∈ records, c.graph.RenderedIn record.part n
            ∧ command w ∈ commandsIn record.code)
          ∧ ((∃ m ∈ g.nodes, m.kind = .namedTask ∧ m.text "NAME" = n.text "NAME") →
            ((∃ record ∈ records, record.Defines options c.reports w)
              ↔ isReservedTask (n.text "NAME") = false)) := by
  intro c
  have hforest : c.graph.Forest := forest_ofGraph hg options
  obtain ⟨hallow, -, p, ctx, h, hctx⟩ := exec_ofGraph hg options herror
  refine ⟨p, _, ctx, h, hctx, fun record hrecord s hmem => ?_, fun n command hn hcommand => ?_⟩
  · obtain ⟨n, hn, command, hcommand, rfl⟩ := (mem_commands_record hforest hrecord).mp hmem
    have hpart := (exists_record_iff hforest).mp ⟨record, hrecord, rfl⟩
    have hrendered : c.graph.Rendered n := (rendered_iff hforest _ options).mpr ⟨_, hpart.1, hn⟩
    obtain ⟨r', hr'⟩ :=
      (resolve_eq_ok_iff (allows_of_rendered hforest hallow hrendered hcommand)).mpr rfl
    exact ⟨n, command, _, r', hn, hcommand, hr', rfl⟩
  · obtain ⟨r', hr'⟩ := (resolve_eq_ok_iff (allows_of_rendered hforest hallow hn hcommand)).mpr rfl
    obtain ⟨sec, hsec, hin⟩ := (rendered_iff hforest (c.graph.resolver options.policy) options).mp hn
    have hnot : sec.isPreamble = false := by
      obtain ⟨-, -, start, hstart, -⟩ := hin
      cases hstart <;> rfl
    obtain ⟨record, hrecord, rfl⟩ := (exists_record_iff hforest).mpr ⟨hsec, hnot⟩
    have hcommands := (mem_commands_record hforest hrecord).mpr ⟨n, hin, command, hcommand, rfl⟩
    exact ⟨_, r', hr', ⟨record, hrecord, hin, hcommands⟩,
      defines_iff_ofGraph hg options herror hn hcommand⟩

def blinkStarted : { g : Graph // g.Reachable ∧ (Compilation.ofGraph g).error = none } :=
  ⟨(Editor.run {} [.create "main_task" {},
      .create "start_task" { fields := [("NAME", .text "blink")] },
      .connectStatement 1 "STATEMENTS" 2,
      .create "named_task" { fields := [("NAME", .text "blink")] }]).graph,
    reachable_run .empty _, Option.isNone_iff_eq_none.mp (by decide +kernel)⟩

/-- A main task that starts the named task beside it. -/
theorem commanded_iff_defined_blink :
    let g := (Editor.run {} [.create "main_task" {},
      .create "start_task" { fields := [("NAME", .text "blink")] },
      .connectStatement 1 "STATEMENTS" 2,
      .create "named_task" { fields := [("NAME", .text "blink")] }]).graph
    let c := Compilation.ofGraph g
    g.Reachable ∧ c.error = none
      ∧ ∃ p records ctx, Gen.exec (recordProgram c.graph) (.start {}) = (.ok (p, records), ctx)
        ∧ ∃ record ∈ records, record.Defines {} c.reports "blink" := by
  intro g c
  obtain ⟨hreach, herror⟩ : g.Reachable ∧ c.error = none := blinkStarted.2
  have hforest : c.graph.Forest := forest_ofGraph hreach {}
  obtain ⟨p, records, ctx, hexec, -, -, h⟩ := commanded_iff_defined hreach {} herror
  obtain ⟨n, hn, hk, hname⟩ := exists_rendered_first hforest 1 2 .startTask "blink"
    (by decide +kernel) (fun m hm _ => (lt_nextHandle_of_get? (hforest.mem_nodes_iff_get?.mp hm)).1)
    (by decide +kernel)
  obtain ⟨w, r', hw, -, hdefines⟩ := h n .start hn (by rw [hk]; rfl)
  have hresolve : ((c.graph.resolver .reject).resolve .task "blink").toOption.map Prod.fst
      = some "blink" := by decide +kernel
  rw [hname] at hw hdefines
  rw [show (c.graph.resolver .reject).resolve .task "blink" = _ from hw] at hresolve
  obtain rfl : w = "blink" := Option.some.inj hresolve
  refine ⟨hreach, herror, p, records, ctx, hexec, (hdefines ?_).mpr (by decide +kernel)⟩
  have hview : (g.get? 3).map (fun m => (m.kind, m.text "NAME")) = some (.namedTask, "blink") := by
    decide +kernel
  obtain ⟨m, hm, hview⟩ := Option.map_eq_some_iff.mp hview
  exact ⟨m, mem_nodes_iff.mpr ⟨3, hm⟩, congrArg Prod.fst hview, congrArg Prod.snd hview⟩

/-- A main task that starts the named task beside it, whose name is reserved: the name is written as
another one, and no task of that name is defined. -/
theorem started_not_defined_while :
    let g := (Editor.run {} [.create "main_task" {},
      .create "start_task" { fields := [("NAME", .text "while")] },
      .connectStatement 1 "STATEMENTS" 2,
      .create "named_task" { fields := [("NAME", .text "while")] }]).graph
    let options : Options := { policy := .rename }
    let c := Compilation.ofGraph g options
    g.Reachable ∧ c.error = none ∧ c.code = "task main()\n\x7b\n  start while2;\n\x7d\n"
      ∧ ∃ n p records ctx, c.graph.Rendered n ∧ n.kind = .startTask
        ∧ (∃ m ∈ g.nodes, m.kind = .namedTask ∧ m.text "NAME" = n.text "NAME")
        ∧ Gen.exec (recordProgram c.graph) (.start options) = (.ok (p, records), ctx)
        ∧ (∃ r', (c.graph.resolver options.policy).resolve .task (n.text "NAME") = .ok ("while2", r'))
        ∧ ¬ ∃ record ∈ records, record.Defines options c.reports "while2" := by
  intro g options c
  have hreach : g.Reachable := reachable_run .empty _
  have herror : c.error = none := Option.isNone_iff_eq_none.mp (by decide +kernel)
  have hforest : c.graph.Forest := forest_ofGraph hreach options
  obtain ⟨n, hn, hk, hname⟩ := exists_rendered_first hforest 1 2 .startTask "while"
    (by decide +kernel) (fun m hm _ => (lt_nextHandle_of_get? (hforest.mem_nodes_iff_get?.mp hm)).1)
    (by decide +kernel)
  have hview : (g.get? 3).map (fun m => (m.kind, m.text "NAME")) = some (.namedTask, "while") := by
    decide +kernel
  obtain ⟨m, hm, hview⟩ := Option.map_eq_some_iff.mp hview
  have htask : ∃ m ∈ g.nodes, m.kind = .namedTask ∧ m.text "NAME" = n.text "NAME" :=
    ⟨m, mem_nodes_iff.mpr ⟨3, hm⟩, congrArg Prod.fst hview, (congrArg Prod.snd hview).trans hname.symm⟩
  have hspell : "while2" = (c.graph.resolver options.policy).spell .task (n.text "NAME") := by
    rw [hname]
    decide +kernel
  obtain ⟨-, -, p, ctx, hexec, -⟩ := exec_ofGraph hreach options herror
  refine ⟨hreach, herror, by decide +kernel, n, p, _, ctx, hn, hk, htask, hexec,
    (resolve_eq_ok_iff (.inl rfl)).mpr hspell, fun hdefines => ?_⟩
  rw [hspell] at hdefines
  have hfree := (defines_iff_ofGraph hreach options herror hn
    (show n.kind.command? = some .start by rw [hk]; rfl) htask).mp hdefines
  rw [hname] at hfree
  revert hfree
  decide +kernel

end Generation

end NqcBlocks
