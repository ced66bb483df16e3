import Mathlib
import NqcBlocks.Proofs.Graph.Excision
import NqcBlocks.Proofs.Program.Transcript

/-!
# Sections do not leak

What is in the body of one task makes no difference to the rest of the program (`sections_isolated`), as long as
the names in use in the graph remain the same ones.
-/

namespace NqcBlocks

open Gen List Scope Plan

variable {heads : List Handle}

/-! ## Resolvers with the same names in use -/

namespace Resolver

/-- **Two resolvers are alike** if they have the same policy and the same names in use. -/
structure Alike (r r' : Resolver) : Prop where
  policy : r'.policy = r.policy
  taken : ∀ s, .text s ∈ r'.taken ↔ .text s ∈ r.taken

namespace Alike

variable {r r' : Resolver}

theorem isFree_eq (h : r.Alike r') (s : String) : r'.isFree s = r.isFree s := by
  have htaken : (Name.text s).isIn r'.taken = (Name.text s).isIn r.taken := by
    rw [Bool.eq_iff_iff, Name.isIn_text_iff, Name.isIn_text_iff, h.taken]
  unfold isFree isTaken
  rw [htaken]

theorem freshName_eq (h : r.Alike r') (word : String) : r'.freshName word = r.freshName word := by
  obtain ⟨k', hk', hfree'⟩ := exists_free word 2 r'.length_blocked_lt
  obtain ⟨k, hk, hfree⟩ := exists_free word 2 r.length_blocked_lt
  unfold freshName
  exact congrArg _ (leastFrom_congr (fun n => h.isFree_eq (suffixed word n)) hk' (isFree_iff.mpr hfree')
    hk (isFree_iff.mpr hfree))

theorem spell_eq (h : r.Alike r') : r'.spell = r.spell := by
  funext use name
  unfold spell
  rw [h.policy, h.freshName_eq]

theorem allocateAll_eq (h : r.Alike r') (loops : List Handle) (s : Scope) :
    allocateAll r' s loops = allocateAll r s loops := by
  have hallocate : ∀ (s : Scope) loop, s.allocate loop r' = s.allocate loop r :=
    allocate_eq_of_isFree fun n => h.isFree_eq (boundName n)
  unfold allocateAll
  simp only [hallocate]

theorem sectionScope_eq (h : r.Alike r') (key : ScopeKey) (parts : List BlockTree) :
    sectionScope r' key parts = sectionScope r key parts := by
  unfold sectionScope withVariables
  rw [h.spell_eq, h.allocateAll_eq]

theorem ofScope_eq (h : r.Alike r') (s : Scope) : Spelling.ofScope r' s = Spelling.ofScope r s := by
  unfold Spelling.ofScope
  rw [h.spell_eq]

theorem plan_eq (h : r.Alike r') (g : Graph) : g.plan r' = g.plan r := by
  have hput : put r' = put r := by
    funext p seen n
    unfold put
    rw [h.spell_eq]
  have hputAll : ∀ (ns : List Node) (p : Plan) (seen : List String), putAll r' p seen ns = putAll r p seen ns := by
    intro ns
    induction ns with
    | nil => exact fun _ _ => rfl
    | cons n ns ih =>
      intro p seen
      rw [putAll, putAll, hput, ih]
  exact hputAll g.topBlocks {} []

theorem taskOf_eq (h : r.Alike r') (n : Node) : Generation.taskOf r' n = Generation.taskOf r n := by
  unfold Generation.taskOf
  rw [h.spell_eq]

end Alike

end Resolver

theorem Graph.alike_resolver {g g' : Graph} (h : ∀ name, name ∈ g'.userNames ↔ name ∈ g.userNames)
    (policy : ReservedPolicy) : (g.resolver policy).Alike (g'.resolver policy) where
  policy := rfl
  taken := fun s => h (.text s)

namespace Generation

/-! ## Sections -/

section Isolated

variable {g g' : Graph} {r r' : Resolver} {task : Handle} {options : Options}

def HeadsOutside (g : Graph) (task : Handle) (heads : List Handle) : Prop :=
  ∀ h ∈ heads, ∃ n, n.handle = h ∧ g.get? n.handle = some n ∧ n.handle ≠ task ∧ g.isOutside task n = true

theorem treesOf_eq (hg : g.Forest) (hg' : g'.Forest) (hagree : g.AgreeOutside task g')
    (hheads : HeadsOutside g task heads) : treesOf g' heads = treesOf g heads := by
  unfold treesOf chainsOf
  refine congrArg _ (map_congr_left fun h hh => ?_)
  obtain ⟨n, rfl, hn, hne, hout⟩ := hheads h hh
  exact (hagree.headTrees_eq hg hg' hn hne hout).symm

theorem scopeOf_eq (hr : r.Alike r') (key : ScopeKey) (htrees : treesOf g' heads = treesOf g heads) :
    scopeOf g' r' key heads = scopeOf g r key heads := by
  unfold scopeOf
  rw [htrees, hr.sectionScope_eq]

theorem chainReports_eq (hr : r.Alike r') (key : ScopeKey) (margin : String)
    (htrees : treesOf g' heads = treesOf g heads) :
    chainReports g' r' options key margin heads = chainReports g r options key margin heads := by
  unfold chainReports spellingOf
  rw [htrees, scopeOf_eq hr key htrees, hr.ofScope_eq]

theorem taskReports_eq (hr : r.Alike r') {t : TaskHead} (hroot : t.root.bind g'.get? = t.root.bind g.get?)
    (htrees : treesOf g' t.heads = treesOf g t.heads) :
    taskReports g' r' options t = taskReports g r options t := by
  unfold taskReports taskHeader taskRemark
  rw [hroot, scopeOf_eq hr t.key htrees, chainReports_eq hr t.key options.indent htrees]

theorem headsOutside_loose (hg : g.Forest) (hagree : g.AgreeOutside task g') :
    HeadsOutside g task (g.plan r).loose := by
  intro h hh
  obtain ⟨n, ⟨hn, -, hp, hmain, hnamed⟩, rfl⟩ := hg.mem_plan_loose.mp hh
  obtain ⟨t, rfl, ht, -, hk⟩ := hagree.top hg
  refine ⟨n, rfl, hn, fun e => ?_, hg.isOutside_of_top ht hk hn hp⟩
  rw [e, ht] at hn
  cases hn
  exact hk.elim hmain hnamed

theorem headsOutside_task (hg : g.Forest) (hagree : g.AgreeOutside task g') {n : Node}
    (hn : g.get? n.handle = some n) (hp : n.parent = none) (hne : n.handle ≠ task) (r : Resolver) :
    HeadsOutside g task (taskOf r n).heads := by
  intro h hh
  have hat : n.at? "STATEMENTS" = some h := Option.mem_toList.mp hh
  obtain ⟨t, rfl, ht, htop, hk⟩ := hagree.top hg
  obtain ⟨m, hm, hmp, -⟩ := hg.exists_child hn hat
  obtain rfl := hg.handle_eq hm
  refine ⟨m, rfl, hm, fun e => ?_, hg.isOutside_child ht hk hn hne (hg.isOutside_of_top ht hk hn hp) hm hmp⟩
  rw [e, ht] at hm
  cases hm
  rw [htop] at hmp
  cases hmp

theorem sectionReports_eq (hg : g.Forest) (hg' : g'.Forest) (hagree : g.AgreeOutside task g')
    (hr : r.Alike r') {sec : Section} (hsec : sec ∈ sections options (g.plan r)) (hne : sec ≠ .task task) :
    sectionReports g' r' options sec = sectionReports g r options sec := by
  have hloose := treesOf_eq hg hg' hagree (headsOutside_loose (r := r) hg hagree)
  rcases mem_sections_iff.mp hsec with ⟨-, rfl⟩ | ⟨-, -, rfl⟩ | ⟨root, hroot, rfl⟩ | ⟨-, rfl⟩
  · rfl
  · rw [sectionReports, sectionReports, globalHeader, globalHeader, scopeOf_eq hr .global hloose, chainReports_eq hr .global "" hloose]
  · obtain ⟨n, ⟨hn, -, hk⟩, rfl⟩ := hg.mem_plan_tasks.mp hroot
    have hother : n.handle ≠ task := fun e => hne (e ▸ rfl)
    have hp : n.parent = none := (hg.typedForest.tasks n (hg.mem_nodes_iff_get?.mpr hn) (hk.imp (·.1) (·.1))).1
    have hn' : g'.get? n.handle = some n := by
      obtain ⟨t, rfl, ht, -, htk⟩ := hagree.top hg
      exact hagree.get?_eq hg hg' hn hother (hg.isOutside_of_top ht htk hn hp)
    have htask : taskReports g' r' options (taskOf r n) = taskReports g r options (taskOf r n) :=
      taskReports_eq hr (hn'.trans hn.symm) (treesOf_eq hg hg' hagree (headsOutside_task hg hagree hn hp hother r))
    rw [sectionReports, sectionReports, hn, hn', Option.map_some, Option.map_some, hr.taskOf_eq, htask]
  · exact taskReports_eq (t := looseHead (g.plan r).loose) hr rfl hloose

end Isolated

/-- **Sections do not leak.** Take two graphs that commands lead to, which are the same apart from what is below the
`STATEMENTS` socket of one task and have the same names in use, and any options. If the programs of both can be
generated, then they are made of the same sections in the same order, each program being the texts of its sections
with empty lines in between, and every section but that of the task has the same text in both. -/
theorem sections_isolated {g g' : Graph} (hg : g.Reachable) (hg' : g'.Reachable) {task : Handle}
    (hagree : g.AgreeOutside task g') (hnames : ∀ name, name ∈ g'.userNames ↔ name ∈ g.userNames)
    {options : Options} {text text' : String} (hcode : code g options = .ok text)
    (hcode' : code g' options = .ok text') :
    ∃ texts texts', transcript g options = .ok texts ∧ transcript g' options = .ok texts'
      ∧ text = "\n".intercalate (texts.map (·.2)) ∧ text' = "\n".intercalate (texts'.map (·.2))
      ∧ List.Forall₂ (fun a b => a.1 = b.1 ∧ (a.1 ≠ .task task → a.2 = b.2)) texts texts' := by
  have hforest := hg.forest
  have hforest' := hg'.forest
  obtain ⟨htexts, htext⟩ := transcript_of_code hforest hcode
  obtain ⟨htexts', htext'⟩ := transcript_of_code hforest' hcode'
  have hr := Graph.alike_resolver hnames options.policy
  have hplan : g'.plan (g'.resolver options.policy) = g.plan (g.resolver options.policy) := by
    rw [hr.plan_eq, hagree.plan_eq hforest hforest']
  rw [hplan] at htexts' htext'
  refine ⟨_, _, htexts, htexts', ?_, ?_, ?_⟩
  · rw [htext, List.map_map]
    rfl
  · rw [htext', List.map_map]
    rfl
  · rw [List.forall₂_map_left_iff, List.forall₂_map_right_iff, List.forall₂_same]
    intro sec hsec
    refine ⟨rfl, fun hne => ?_⟩
    exact congrArg CodeReport.code (sectionReports_eq hforest hforest' hagree hr hsec hne).symm

def twoTasks : List Command :=
  [.create "main_task" {}, .create "variable_set" { fields := [("VAR", .text "while")] },
    .connectStatement 1 "STATEMENTS" 2, .create "named_task" { fields := [("NAME", .text "stop")] },
    .create "variable_set" { fields := [("VAR", .text "while")] }, .connectStatement 3 "STATEMENTS" 4]

def otherBody : List Command :=
  [.create "start_task" { fields := [("NAME", .text "stop")] }, .delete 2,
    .connectStatement 1 "STATEMENTS" 5]

theorem code_twoTasks : code (Editor.run {} twoTasks).graph { policy := .rename }
    = .ok ("task main()\n\x7b\n  int while2;\n\n  while2 = 0;\n\x7d\n\n"
      ++ "task stop2()\n\x7b\n  int while2;\n\n  while2 = 0;\n\x7d\n") :=
  eq_ok_of_toOption (by decide +kernel)

theorem code_otherBody : code (Editor.run {} (twoTasks ++ otherBody)).graph { policy := .rename }
    = .ok ("task main()\n\x7b\n  start stop2;\n\x7d\n\n"
      ++ "task stop2()\n\x7b\n  int while2;\n\n  while2 = 0;\n\x7d\n") :=
  eq_ok_of_toOption (by decide +kernel)

theorem userNames_otherBody : (Editor.run {} twoTasks).graph.userNames = [.text "while", .text "stop"]
    ∧ (Editor.run {} (twoTasks ++ otherBody)).graph.userNames = [.text "stop", .text "while"] := by
  cbv
  exact ⟨rfl, rfl⟩

theorem agreeOutside_otherBody :
    (Editor.run {} twoTasks).graph.AgreeOutside 1 (Editor.run {} (twoTasks ++ otherBody)).graph where
  isTask := by
    have hkind : ((Editor.run {} twoTasks).graph.get? 1).map (·.kind) = some .mainTask := by
      decide +kernel
    exact (Option.map_eq_some_iff.mp hkind).imp fun n h => ⟨h.1, .inl h.2⟩
  withoutBody := by cbv

/-- With the body of the main task the order changes in which the words are met and renamed. -/
theorem sections_isolated_two_tasks :
    let g := (Editor.run {} twoTasks).graph
    let g' := (Editor.run {} (twoTasks ++ otherBody)).graph
    g.Reachable ∧ g'.Reachable ∧ g.AgreeOutside 1 g'
    ∧ ∃ texts texts', transcript g { policy := .rename } = .ok texts
      ∧ transcript g' { policy := .rename } = .ok texts'
      ∧ List.Forall₂ (fun a b => a.1 = b.1 ∧ (a.1 ≠ .task 1 → a.2 = b.2)) texts texts' := by
  intro g g'
  have hreach : g.Reachable := Graph.reachable_run .empty _
  have hreach' : g'.Reachable := Graph.reachable_run .empty _
  have hnames : ∀ name, name ∈ g'.userNames ↔ name ∈ g.userNames := by
    intro name
    rw [userNames_otherBody.1, userNames_otherBody.2]
    exact (List.Perm.swap _ _ []).mem_iff
  obtain ⟨texts, texts', htexts, htexts', -, -, hsame⟩ := sections_isolated hreach hreach'
    agreeOutside_otherBody hnames code_twoTasks code_otherBody
  exact ⟨hreach, hreach', agreeOutside_otherBody, texts, texts', htexts, htexts', hsame⟩

end Generation

end NqcBlocks
