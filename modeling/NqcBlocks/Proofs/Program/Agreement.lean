import NqcBlocks.Proofs.Program.Declaration
import NqcBlocks.Proofs.Validation.Ruling

/-!
# What validation lets through is planned

The rules about tasks are there twice. Validation goes by the flags and the names of the blocks, and the
plan of a program by what the names are resolved to. On a settled graph the two agree: every task that
is enabled is a task of the program (`Forest.planned_of_settled`), so that the plan has nothing to leave
out (`Plan.putAll_of_admits`), and no name of such a task is refused.
-/

namespace NqcBlocks

open Gen List Plan

variable {n : Node} {sec : Section}

theorem BlockKind.isTask_iff {k : BlockKind} : k.isTask = true ↔ k = .mainTask ∨ k = .namedTask := by
  cases k <;> simp [isTask]

/-! ## A plan that leaves nothing out -/

namespace Plan

variable {r : Resolver}

theorem put_of_admits {p : Plan} {seen : List String}
    (h : n.enabled = true → n.kind.isTask = true → p.Admits seen [] n) :
    (put r p seen n).1.tasks = p.tasks ++ (if n.enabled && n.kind.isTask then [n.handle] else [])
      ∧ (put r p seen n).1.loose = p.loose ++ (if n.enabled && !n.kind.isTask then [n.handle] else [])
      ∧ (put r p seen n).1.skipped = p.skipped := by
  unfold put
  cases hen : n.enabled with
  | false => simp
  | true =>
    cases hk : n.kind
    case mainTask =>
      obtain ⟨-, ⟨-, hmain, -⟩ | ⟨hk', -⟩⟩ := h hen (by rw [hk]; rfl)
      · simp [BlockKind.isTask, hmain, addTask]
      · rw [hk] at hk'
        cases hk'
    case namedTask =>
      obtain ⟨-, ⟨hk', -⟩ | ⟨-, hne, hnot, -⟩⟩ := h hen (by rw [hk]; rfl)
      · rw [hk] at hk'
        cases hk'
      · simp [BlockKind.isTask, hne, hnot, addTask]
    all_goals simp [BlockKind.isTask]

theorem putAll_of_admits : ∀ (ns : List Node) (p : Plan) (seen : List String),
    (∀ before n after, ns = before ++ n :: after → n.enabled = true → n.kind.isTask = true → p.Admits seen before n) →
    (putAll r p seen ns).tasks = p.tasks ++ (ns.filter fun n => n.enabled && n.kind.isTask).map (·.handle)
      ∧ (putAll r p seen ns).loose = p.loose ++ (ns.filter fun n => n.enabled && !n.kind.isTask).map (·.handle)
      ∧ (putAll r p seen ns).skipped = p.skipped
  | [], p, seen, _ => by simp [putAll]
  | n :: ns, p, seen, h => by
    obtain ⟨htasks, hloose, hskipped⟩ := put_of_admits (r := r) (h [] n ns rfl)
    have hrest := putAll_of_admits ns (put r p seen n).1 (put r p seen n).2 fun before m after heq hen hk =>
        (admits_put p seen n before m).mpr (h (n :: before) m after (by rw [heq]; rfl) hen hk)
    rw [htasks, hloose, hskipped, append_assoc, append_assoc] at hrest
    have hcons : ∀ b : Node → Bool, ((n :: ns).filter b).map (·.handle)
        = (if b n then [n.handle] else []) ++ (ns.filter b).map (·.handle) := by
      intro b
      rw [filter_cons]
      split <;> rfl
    rw [putAll, hcons, hcons]
    exact hrest

end Plan

namespace Graph

namespace Forest

variable {g : Graph}

theorem planned_of_settled (hg : g.Forest) (hs : g.Settled) (hn : n ∈ g.nodes)
    (hen : n.enabled = true) (hk : n.kind.isTask = true) : g.Planned n := by
  refine ⟨hg.mem_nodes_iff_get?.mp hn, hen, ?_⟩
  rcases BlockKind.isTask_iff.mp hk with hk | hk
  · have hfirst := (hs.enabled_mainTask_iff hn hk).mp hen
    exact .inl ⟨hk, fun m hm _ hmk => hfirst m (hg.mem_nodes_iff_get?.mpr hm) hmk⟩
  · obtain ⟨hne, -, hfirst⟩ := (hs.enabled_namedTask_iff hn hk).mp hen
    exact .inr ⟨hk, hne, fun m hm _ hmk hname =>
      hfirst m (hg.mem_nodes_iff_get?.mpr hm) hmk hname⟩

theorem plan_of_settled (hg : g.Forest) (hs : g.Settled) (r : Resolver) :
    (g.plan r).tasks = (g.topBlocks.filter fun n => n.enabled && n.kind.isTask).map (·.handle)
      ∧ (g.plan r).loose = (g.topBlocks.filter fun n => n.enabled && !n.kind.isTask).map (·.handle)
      ∧ (g.plan r).skipped = [] := by
  have h := putAll_of_admits (r := r) g.topBlocks {} [] fun before n after heq hen hk =>
      hg.admits_of_planned (hg.planned_of_settled hs (mem_filter.mp (heq ▸ by simp : n ∈ g.topBlocks)).1 hen hk) heq
  rw [nil_append, nil_append] at h
  exact h

theorem mem_enabledTasks_iff (hg : g.Forest) {h : Handle} :
    h ∈ (g.validate.1.topBlocks.filter fun n => n.enabled && n.kind.isTask).map (·.handle)
      ↔ ∃ n ∈ g.nodes, n.handle = h
        ∧ (n.kind = .mainTask ∧ (∀ m ∈ g.nodes, m.kind = .mainTask → n.handle ≤ m.handle)
          ∨ n.kind = .namedTask ∧ n.text "NAME" ≠ "" ∧ isReservedTask (n.text "NAME") = false
            ∧ ∀ m ∈ g.nodes, m.kind = .namedTask → m.text "NAME" = n.text "NAME" → n.handle ≤ m.handle) := by
  have hforest := hg.validate.forest
  rw [mem_map]
  constructor
  · rintro ⟨n', hn', rfl⟩
    obtain ⟨htop, hboth⟩ := mem_filter.mp hn'
    rw [Bool.and_eq_true] at hboth
    obtain ⟨n, hn, rfl⟩ := mem_map.mp (hg.nodes_validate ▸ (mem_filter.mp htop).1)
    have hfine := (enabled_due_iff (n := n) hboth.2).mp hboth.1
    refine ⟨n, hn, rfl, (BlockKind.isTask_iff.mp hboth.2).imp (fun hk => ⟨hk, ?_⟩) fun hk => ⟨hk, ?_⟩⟩
    · exact (due_mainTask hk).1.mp hfine
    · exact (due_namedTask hk).1.mp hfine
  · rintro ⟨n, hn, rfl, htask⟩
    have hmem : n.flagged (g.due n) ∈ g.validate.1.nodes := hg.nodes_validate ▸ mem_map_of_mem hn
    have hk : n.kind = .mainTask ∨ n.kind = .namedTask := htask.imp (fun h => h.1) (fun h => h.1)
    have hfine : g.due n = .fine := by
      rcases htask with ⟨hk, hfirst⟩ | ⟨hk, hrest⟩
      · exact (due_mainTask hk).1.mpr hfirst
      · exact (due_namedTask hk).1.mpr hrest
    refine ⟨n.flagged (g.due n), mem_filter.mpr ⟨?_, ?_⟩, rfl⟩
    · exact hforest.mem_topBlocks_of_isTask (hforest.mem_nodes_iff_get?.mp hmem) hk
    · rw [hfine]
      exact BlockKind.isTask_iff.mpr hk

theorem hasMain_of_settled (hg : g.Forest) (hs : g.Settled) (r : Resolver) :
    (g.plan r).hasMain = true ↔ ∃ n ∈ g.nodes, n.kind = .mainTask := by
  unfold plan
  rw [hasMain_putAll]
  constructor
  · rintro (h | ⟨n, hn, -, hk⟩)
    · cases h
    · exact ⟨n, (mem_filter.mp hn).1, hk⟩
  · rintro ⟨n, hn, hk⟩
    obtain ⟨m, hm, hmk, hfirst⟩ := exists_first (P := fun m => m.kind = .mainTask) hn hk
    exact .inr ⟨m, hg.mem_topBlocks_of_isTask (hg.mem_nodes_iff_get?.mp hm) (.inl hmk),
      (hs.enabled_mainTask_iff hm hmk).mpr hfirst, hmk⟩

theorem exec_plan (hg : g.Forest) (options : Options)
    (hallow : ∀ n ∈ g.topBlocks, ∀ u ∈ n.taskNames, options.policy.Allows u) :
    ∃ c, exec (do begin g; ofGraph g) (.start options) = (.ok (g.plan (g.resolver options.policy)), c) := by
  have hbegin : exec (do begin g; ofGraph g) (.start options)
      = exec (ofGraph g) { Context.start options with names := g.resolver options.policy } := by
    refine exec_bind_ok (a := ()) ?_
    unfold Gen.begin
    rw [if_pos hg.isNamed]
    rfl
  rw [hbegin]
  -- planning looks at no remark, so that it can be said to end as in a graph without any
  have hends : Ends .empty (g.resolver options.policy) (ofGraph g) (.start options)
      { u | ∃ n ∈ g.topBlocks, u ∈ n.taskNames } (g.plan (g.resolver options.policy))
      (.start options) := ends_plan hg rfl _
  rcases (hends _ (.refl rfl)).2 with ⟨-, names, -, h⟩ | ⟨u, ⟨n, hn, hu⟩, hnot, -⟩ | ⟨n, hn, -⟩
  · exact ⟨_, h⟩
  · exact absurd (hallow n hn u hu) hnot
  · cases h : n.handle <;> rw [h] at hn <;> cases hn

theorem allows_of_settled (hs : g.Settled) (policy : ReservedPolicy) :
    ∀ n ∈ g.topBlocks, ∀ u ∈ n.taskNames, policy.Allows u := by
  rintro n hn u ⟨hen, hk, -, rfl⟩
  exact .inr ((hs.enabled_namedTask_iff (mem_filter.mp hn).1 hk).mp hen).2.1

/-! ## One section for each block -/

theorem not_holds_top (hg : g.Forest) (hn : n ∈ g.topBlocks) {x : Handle} {m : Node}
    (hm : g.get? x = some m) {k : String} : ¬ m.Holds k n.handle := by
  intro hholds
  have hmx := hg.handle_eq hm
  subst hmx
  obtain ⟨hmem, htop⟩ := mem_filter.mp hn
  have hparent := (hg.typedForest.linked n hmem m.handle k).mpr ⟨m, hg.mem_nodes_iff_get?.mpr hm, rfl, hholds⟩
  rw [hparent] at htop
  cases htop

theorem eq_of_follows_top (hg : g.Forest) (hn : n ∈ g.topBlocks) {x : Handle}
    (hx : Relation.ReflTransGen g.Follows x n.handle) : x = n.handle := by
  rcases hx.cases_tail with heq | ⟨y, -, hy⟩
  · exact heq.symm
  · cases hy with
    | next hm hnext => exact absurd (.next hnext) (hg.not_holds_top hn hm)
    | slot hm _ _ hholds => exact absurd hholds (hg.not_holds_top hn hm)

end Forest

end Graph

def Section.loose? : Section → Option (List Handle)
  | .global loose | .main loose => some loose
  | .preamble _ | .task _ => none

def Section.Writes (g : Graph) (n : Node) (sec : Section) : Prop :=
  sec = .task n.handle ∨ g.RenderedIn sec n

theorem Section.starts_of_loose? {g : Graph} {loose : List Handle} (hsec : sec.loose? = some loose)
    {h : Handle} (hh : h ∈ loose) : sec.Starts g h := by
  cases sec with
  | preamble text => cases hsec
  | global loose =>
    cases hsec
    exact .global hh
  | task root => cases hsec
  | main loose =>
    cases hsec
    exact .main hh

namespace Generation

variable {p : Plan} {options : Options}

theorem task_mem_sections_iff {root : Handle} : .task root ∈ sections options p ↔ root ∈ p.tasks := by
  simp [mem_sections_iff]

theorem loose_of_mem_sections (hsec : sec ∈ sections options p) {loose : List Handle}
    (h : sec.loose? = some loose) : loose = p.loose := by
  rcases mem_sections_iff.mp hsec with ⟨-, rfl⟩ | ⟨-, -, rfl⟩ | ⟨_, -, rfl⟩ | ⟨-, rfl⟩ <;> cases h <;> rfl

theorem existsUnique_loose? (h : p.loose ≠ []) (options : Options) :
    ∃! sec, sec ∈ sections options p ∧ sec.loose? = some p.loose := by
  simp only [mem_sections_iff]
  cases hmain : p.hasMain with
  | true =>
    refine ⟨.global p.loose, ⟨.inr (.inl ⟨h, rfl, rfl⟩), rfl⟩, ?_⟩
    rintro sec ⟨⟨-, rfl⟩ | ⟨-, -, rfl⟩ | ⟨_, -, rfl⟩ | ⟨hno, rfl⟩, hsec⟩
    · cases hsec
    · rfl
    · cases hsec
    · cases hno
  | false =>
    refine ⟨.main p.loose, ⟨.inr (.inr (.inr ⟨rfl, rfl⟩)), rfl⟩, ?_⟩
    rintro sec ⟨⟨-, rfl⟩ | ⟨-, hyes, rfl⟩ | ⟨_, -, rfl⟩ | ⟨-, rfl⟩, hsec⟩
    · cases hsec
    · cases hyes
    · cases hsec
    · rfl

end Generation

namespace Graph.Forest

open Generation

variable {g : Graph}

theorem writes_top (hg : g.Forest) (hn : n ∈ g.topBlocks) {r : Resolver} {options : Options}
    (hsec : sec ∈ sections options (g.plan r)) (h : sec.Writes g n) :
    sec = .task n.handle
      ∨ n.handle ∈ (g.plan r).loose ∧ sec.loose? = some (g.plan r).loose := by
  rcases h with h | ⟨-, -, start, hstart, hx⟩
  · exact .inl h
  · rw [hg.eq_of_follows_top hn hx] at hstart
    cases hstart with
    | global hmem =>
      obtain rfl := loose_of_mem_sections hsec rfl
      exact .inr ⟨hmem, rfl⟩
    | task hm hholds => exact absurd hholds (hg.not_holds_top hn hm)
    | main hmem =>
      obtain rfl := loose_of_mem_sections hsec rfl
      exact .inr ⟨hmem, rfl⟩

theorem existsUnique_section (hg : g.Forest) (r : Resolver) (options : Options) (hn : g.Planned n ∨ g.Loose n) :
    ∃! sec, sec ∈ sections options (g.plan r) ∧ sec.Writes g n := by
  rcases hn with hn | hn
  · have hk := hn.2.2.imp (fun h => h.1) (fun h => h.1)
    have hmem := hg.mem_topBlocks_of_isTask hn.1 hk
    refine ⟨.task n.handle, ⟨task_mem_sections_iff.mpr (hg.mem_plan_tasks.mpr ⟨n, hn, rfl⟩), .inl rfl⟩,
      fun sec ⟨hsec, hw⟩ => (hg.writes_top hmem hsec hw).resolve_right fun ⟨h, _⟩ => ?_⟩
    -- a task is not loose
    obtain ⟨m, ⟨hm, -, -, hmain, hnamed⟩, heq⟩ := hg.mem_plan_loose.mp h
    obtain rfl := hg.eq_of_handle_eq (hg.mem_nodes_iff_get?.mpr hn.1) (hg.mem_nodes_iff_get?.mpr hm) heq
    exact hk.elim hmain hnamed
  · obtain ⟨hget, hen, htop, hmain, hnamed⟩ := id hn
    have hmem := hg.mem_topBlocks_iff.mpr ⟨hget, htop⟩
    have hloose := (hg.mem_plan_loose (r := r)).mpr ⟨n, hn, rfl⟩
    obtain ⟨sec, ⟨hsec, hof⟩, hunique⟩ := existsUnique_loose? (ne_nil_of_mem hloose) options
    refine ⟨sec, ⟨hsec, .inr ⟨hget, hen, _, Section.starts_of_loose? hof hloose, .refl⟩⟩,
      fun sec' ⟨hsec', hw⟩ => hunique sec' ⟨hsec', ((hg.writes_top hmem hsec' hw).resolve_left fun heq => ?_).2⟩⟩
    -- a loose block is no task
    subst heq
    obtain ⟨m, hm, heq⟩ := hg.mem_plan_tasks.mp (task_mem_sections_iff.mp hsec')
    obtain rfl := hg.eq_of_handle_eq (hg.mem_nodes_iff_get?.mpr hget) (hg.mem_nodes_iff_get?.mpr hm.1) heq
    exact hm.2.2.elim (fun h => hmain h.1) fun h => hnamed h.1

end Graph.Forest

namespace Generation

open Graph

theorem nodup_sections {p : Plan} (h : p.tasks.Nodup) (options : Options) : (sections options p).Nodup := by
  have htasks : (p.tasks.map Section.task).Nodup := h.map fun a b hab => Section.task.inj hab
  unfold sections
  cases options.preamble.isEmpty <;> cases p.loose.isEmpty <;> cases p.hasMain <;>
    simp [nodup_append, htasks]

/-- **After validation the plan has everything that is enabled.** Whatever the policy about reserved
names, making the plan of a validated graph succeeds and leaves nothing out. There is a main task in it
exactly if the graph has one. Its tasks are the enabled tasks in order of creation, that is, the first
main task and the first task with each name that is neither empty nor reserved; its loose blocks are the
other enabled blocks that stand on their own. Each of them is written in exactly one section. -/
theorem plan_of_validated {g : Graph} (hg : g.Reachable) (options : Options) :
    let g' := g.validate.1
    ∃ plan c, exec (do begin g'; Plan.ofGraph g') (.start options) = (.ok plan, c)
      ∧ plan.skipped = []
      ∧ (plan.hasMain = true ↔ ∃ n ∈ g.nodes, n.kind = .mainTask)
      ∧ plan.tasks = (g'.topBlocks.filter fun n => n.enabled && n.kind.isTask).map (·.handle)
      ∧ (∀ h, h ∈ plan.tasks ↔ ∃ n ∈ g.nodes, n.handle = h
        ∧ (n.kind = .mainTask ∧ (∀ m ∈ g.nodes, m.kind = .mainTask → n.handle ≤ m.handle)
          ∨ n.kind = .namedTask ∧ n.text "NAME" ≠ "" ∧ isReservedTask (n.text "NAME") = false
            ∧ ∀ m ∈ g.nodes, m.kind = .namedTask → m.text "NAME" = n.text "NAME" →
              n.handle ≤ m.handle))
      ∧ plan.loose = (g'.topBlocks.filter fun n => n.enabled && !n.kind.isTask).map (·.handle)
      ∧ (sections options plan).Nodup
      ∧ ∀ n ∈ g'.topBlocks, n.enabled = true →
        ∃! sec, sec ∈ sections options plan ∧ sec.Writes g' n := by
  intro g'
  have hforest : g'.Forest := hg.forest.validate.forest
  have hs : g'.Settled := hg.forest.settled_validate
  have hnodes : g'.nodes = g.nodes.map fun n => n.flagged (g.due n) := hg.forest.nodes_validate
  obtain ⟨c, hexec⟩ := hforest.exec_plan options (Forest.allows_of_settled hs options.policy)
  obtain ⟨htasks, hloose, hskipped⟩ := hforest.plan_of_settled hs (g'.resolver options.policy)
  refine ⟨_, c, hexec, hskipped, ?_, htasks, fun h => ?_, hloose, nodup_sections ?_ options,
    fun n hn hen => ?_⟩
  · rw [hforest.hasMain_of_settled hs, hnodes]
    simp only [List.mem_map, exists_exists_and_eq_and]
    rfl
  · rw [htasks]
    exact hg.forest.mem_enabledTasks_iff
  · rw [htasks]
    exact (hforest.sorted_nodes.sublist
      ((List.filter_sublist.trans List.filter_sublist).map _)).imp Nat.ne_of_lt
  · refine hforest.existsUnique_section _ options ?_
    obtain ⟨hget, htop⟩ := hforest.mem_topBlocks_iff.mp hn
    cases hk : n.kind.isTask with
    | true => exact .inl (hforest.planned_of_settled hs (List.mem_filter.mp hn).1 hen hk)
    | false =>
      have hno := fun h => Bool.eq_false_iff.mp hk (BlockKind.isTask_iff.mpr h)
      exact .inr ⟨hget, hen, htop, fun h => hno (.inl h), fun h => hno (.inr h)⟩

/-- With a disabled main task before an enabled one, a name twice and a reserved name, the plan has the
first main task, the first task with the name and the block outside. -/
theorem plan_of_validated_seven :
    let g := (Editor.run {} [.create "main_task" { enabled := false }, .create "main_task" {},
      .create "named_task" { fields := [("NAME", .text "blink")] },
      .create "named_task" { fields := [("NAME", .text "blink")] },
      .create "named_task" { fields := [("NAME", .text "while")] },
      .create "named_task" { fields := [("NAME", .text "")] }, .create "wait_seconds" {}]).graph
    g.Reachable ∧ ∃ plan c,
      exec (do begin g.validate.1; Plan.ofGraph g.validate.1) (.start {}) = (.ok plan, c)
        ∧ plan.skipped = [] ∧ plan.tasks = [1, 3] ∧ plan.loose = [7] := by
  intro g
  have hreach : g.Reachable := reachable_run .empty _
  obtain ⟨plan, c, hexec, hskipped, -, htasks, -, hloose, -⟩ := plan_of_validated hreach {}
  exact ⟨hreach, plan, c, hexec, hskipped, htasks.trans (by decide +kernel),
    hloose.trans (by decide +kernel)⟩

end Generation

end NqcBlocks
