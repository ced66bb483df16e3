import NqcBlocks.Proofs.Program.ProgramLines
import NqcBlocks.Proofs.Program.Renaming

/-!
# The variables of loops

A loop whose count is computed keeps it in a variable that the generator makes up. Before a section is
written its chains are gone through, and each such loop gets the next number that is free: no block of the
graph has the name with this number, be it enabled or not (`Generation.CountVariables`).
-/

namespace NqcBlocks

open List Option Resolver Name

variable {n : Node} {h : Handle}

namespace Graph

variable {g : Graph}

theorem Forest.chainParts_sublist_subtree (hg : g.Forest) (hn : g.get? h = some n) :
    ((chainParts (g.trees (some h))).map BlockTree.node).Sublist (g.subtree n) := by
  rw [← hg.chainNodes_trees hn]
  exact chainParts_sublist _

/-! ## Names -/

def HasName (g : Graph) (x : String) : Prop :=
  ∃ n ∈ g.nodes, ∃ spec, Builtin.spec? n.kind = some spec ∧ ∃ f ∈ spec.fields, f.kind = .identifier
    ∧ n.fields.get? f.name = some (.text x)

namespace Forest

theorem mem_userNames_iff (hg : g.Forest) {x : String} : .text x ∈ g.userNames ↔ x ≠ "" ∧ g.HasName x := by
  unfold userNames
  rw [mem_distinct_text, mem_filterMap]
  constructor
  · rintro ⟨j, hj, hname⟩
    obtain ⟨n, hn, spec, hc, f, hf, hk, hne, rfl⟩ := hg.mem_identifiers_iff.mp hj
    cases hname
    exact ⟨hne, n, hn, spec, hc.known, f, hf, hk, (hc.identifier hf hk).1⟩
  · rintro ⟨hne, n, hn, spec, hspec, f, hf, hk, hget⟩
    obtain ⟨h, hn'⟩ := mem_nodes_iff.mp hn
    obtain ⟨-, spec', hc⟩ := hg.sound hn'
    obtain rfl : spec' = spec := Option.some.inj (hc.known.symm.trans hspec)
    have htext : n.text f.name = x := Json.text.inj (Option.some.inj ((hc.identifier hf hk).1.symm.trans hget))
    exact ⟨.text x, hg.mem_identifiers_iff.mpr ⟨n, hn, spec', hc, f, hf, hk, htext ▸ hne, htext ▸ rfl⟩, rfl⟩

theorem mem_userNames_of_mem_names (hg : g.Forest) (hn : g.get? n.handle = some n) {u : ReservedNameError}
    (hu : u ∈ n.names) : .text u.name ∈ g.userNames := by
  obtain ⟨-, spec, hc⟩ := hg.sound hn
  obtain ⟨field, hfield, rfl⟩ := List.mem_map.mp (by simpa only [Node.names, toList_map] using hu)
  have hknown := hc.known
  have hspec : ∃ f ∈ spec.fields, f.kind = .identifier ∧ f.allowEmpty = false ∧ f.name = field.1 := by
    rw [mem_toList] at hfield
    cases hk : n.kind <;> rw [hk] at hfield hknown <;> cases hfield <;> cases hknown <;>
      exact ⟨_, mem_cons_self, rfl, rfl, rfl⟩
  obtain ⟨f, hf, hk, hfull, hname⟩ := hspec
  have hne : n.text f.name ≠ "" := by
    intro hempty
    rcases (hc.identifier hf hk).2 with ⟨-, hallowed⟩ | hlegal
    · rw [hfull] at hallowed
      cases hallowed
    · rw [hempty] at hlegal
      cases hlegal
  have hmem := hg.mem_userNames hn hc hf hk hne
  rwa [hname] at hmem

theorem mem_userNames_of_mem_programNames (hg : g.Forest) {options : Options} {u : ReservedNameError}
    (hu : u ∈ Generation.programNames g options) : .text u.name ∈ g.userNames := by
  rcases (Generation.mem_programNames_iff hg).mp hu with ⟨n, hn, -, hk, hne, rfl⟩ | ⟨n, hn, hu⟩
  · have hn := hg.mem_nodes_iff_get?.mp hn
    obtain ⟨-, spec, hc⟩ := hg.sound hn
    have hknown := hc.known
    rw [hk] at hknown
    cases hknown
    exact hg.mem_userNames hn hc mem_cons_self rfl hne
  · exact hg.mem_userNames_of_mem_names hn.1 hu

end Forest

end Graph

namespace Generation

open Graph Gen

variable {g : Graph} {options : Options} {sec : Section} {heads : List Handle}

/-! ## The chains of a section -/

theorem map_node_chainParts (hg : g.Forest) (hheads : Heads g heads) :
    (chainParts (treesOf g heads)).map BlockTree.node
      = heads.flatMap fun h => (chainParts (g.trees (some h))).map BlockTree.node := by
  induction heads with
  | nil => rfl
  | cons h rest ih =>
    obtain ⟨n, hn, -⟩ := hheads h mem_cons_self
    have htrees : treesOf g (h :: rest) = g.trees (some h) ++ treesOf g rest := by
      rw [← hg.headTrees_eq hn]
      rfl
    rw [htrees, chainParts_append, map_append, ih fun x hx => hheads x (mem_cons_of_mem _ hx), flatMap_cons]

theorem chainParts_sublist_below (hg : g.Forest) (hheads : Heads g heads) :
    ((chainParts (treesOf g heads)).map BlockTree.node).Sublist ((heads.filterMap g.get?).flatMap g.subtree) := by
  rw [map_node_chainParts hg hheads, filterMap_eq_flatMap_toList, flatMap_assoc]
  refine List.Sublist.flatMap_right _ fun h hh => ?_
  obtain ⟨n, hn, -⟩ := hheads h hh
  rw [hn, toList_some, flatMap_singleton]
  exact hg.chainParts_sublist_subtree hn

theorem nodup_chainParts (hg : g.Forest) {r : Resolver} (hsec : sec ∈ sections options (g.plan r))
    (hheads : Heads g heads) (h : heads.length ≤ 1 ∨ sec = .global heads ∨ sec = .main heads) :
    (((chainParts (treesOf g heads)).map BlockTree.node).map (·.handle)).Nodup := by
  rw [map_node_chainParts hg hheads]
  rcases h with hlength | hsection
  · obtain _ | ⟨h, _ | ⟨h', rest⟩⟩ := heads
    · exact nodup_nil
    · obtain ⟨n, hn, -⟩ := hheads h mem_cons_self
      rw [flatMap_singleton]
      exact (hg.nodup_subtree hn).sublist ((hg.chainParts_sublist_subtree hn).map (·.handle))
    · simp at hlength
  · have hloose : heads = (g.plan r).loose := by
      rcases mem_sections_iff.mp hsec with ⟨-, rfl⟩ | ⟨-, -, rfl⟩ | ⟨root, -, rfl⟩ | ⟨-, rfl⟩ <;>
        rcases hsection with h | h <;> cases h <;> rfl
    subst hloose
    refine hg.nodup_flatMap_below hg.chainParts_sublist_subtree (nodup_plan_loose hg) fun h hh => ?_
    obtain ⟨n, hn, rfl⟩ := hg.mem_plan_loose.mp hh
    exact ⟨n, hn.1, hn.2.2.1⟩

/-! ## The variables of a section's loops -/

/-- **What the loops of a section get**, in the scope that collecting its variables leaves. -/
structure CountVariables (g : Graph) (options : Options) (sec : Section) (heads : List Handle) (s : Scope)
    (loops : List Node) (numbers : List Nat) : Prop where
  starts : ∀ h, h ∈ heads ↔ sec.Starts g h
  collected : ∀ c : Context, c.scope = some { key := s.key } → (g.resolver options.policy).Sound c.names →
    (∃ names, (g.resolver options.policy).Sound names
      ∧ exec (prescan g.catalog (chainsOf g heads)) c = (.ok (), { c with scope := some s, names }))
    ∨ ∃ n v c', g.RenderedIn sec n ∧ v ∈ n.variables ∧ isReserved v = true ∧ options.policy = .reject
      ∧ exec (prescan g.catalog (chainsOf g heads)) c = (.error (.reserved ⟨v, .variable⟩), c')
  counted : ∀ n, n ∈ loops ↔ g.RenderedIn sec n ∧ g.HasComputedCount n
  preorder : loops.Sublist ((heads.filterMap g.get?).flatMap g.subtree)
  distinct : (loops.map (·.handle)).Nodup
  given : List.Forall₂ (fun n k => s.auxiliaryName? n.handle = some (Scope.boundName k)
    ∧ ∃ count body, (g.tree n).stmts (.ofScope (g.resolver options.policy) s)
      = withComments (g.tree n).remarks
          [.assign (Scope.boundName k) count, .repeatTimes (.variable (Scope.boundName k)) body]) loops numbers
  increasing : numbers.Pairwise (· < ·)
  fresh : ∀ k ∈ numbers, ¬ g.HasName (Scope.boundName k) ∧ isReservedTask (Scope.boundName k) = false
    ∧ ∀ u ∈ programNames g options, (g.resolver options.policy).spell u.use u.name ≠ Scope.boundName k
  least : ∀ k ∈ numbers, 1 ≤ k ∧ ∀ m, 1 ≤ m → m < k → m ∈ numbers ∨ g.HasName (Scope.boundName m)
  declared : ∃ users : List String,
    s.names = (users ++ numbers.map Scope.boundName).map .text
      ∧ ∀ x, x ∈ users ↔ ∃ n v, g.RenderedIn sec n ∧ v ∈ n.variables
        ∧ x = (g.resolver options.policy).spell .variable v
  written : ∀ {p records c}, exec (recordProgram g) (.start options) = (.ok (p, records), c) →
    ∃ record ∈ records, record.part = sec ∧ record.opened = some s ∧ record.closed = some s
      ∧ record.code = chainStmts (.ofScope (g.resolver options.policy) s) (treesOf g heads)

section Section

variable {key : ScopeKey} (hg : g.Forest) (hheads : Heads g heads) (hstarts : ∀ h, h ∈ heads ↔ sec.Starts g h)
include hg hheads hstarts

theorem mem_parts_iff_renderedIn {p : BlockTree} :
    p ∈ chainParts (treesOf g heads) ↔ ∃ n, g.RenderedIn sec n ∧ p = g.tree n := by
  rw [mem_parts_treesOf hg hheads]
  constructor
  · rintro ⟨h, hh, n, hx, hn, hen, rfl⟩
    exact ⟨n, ⟨hn, hen, h, (hstarts h).mp hh, hx⟩, rfl⟩
  · rintro ⟨n, ⟨hn, hen, h, hh, hx⟩, rfl⟩
    exact ⟨h, (hstarts h).mpr hh, n, hx, hn, hen, rfl⟩

theorem mem_variablesOf_iff {v : String} :
    v ∈ variablesOf (chainParts (treesOf g heads)) ↔ ∃ n, g.RenderedIn sec n ∧ v ∈ n.variables := by
  unfold variablesOf
  simp only [mem_flatMap, mem_parts_iff_renderedIn hg hheads hstarts]
  constructor
  · rintro ⟨-, ⟨n, hn, rfl⟩, hv⟩
    exact ⟨n, hn, hg.node_tree hn.1 ▸ hv⟩
  · rintro ⟨n, hn, hv⟩
    exact ⟨_, ⟨n, hn, rfl⟩, (hg.node_tree hn.1).symm ▸ hv⟩

theorem mem_loopsOf_iff : n ∈ loopsOf (chainParts (treesOf g heads)) ↔ g.RenderedIn sec n ∧ g.HasComputedCount n := by
  unfold loopsOf
  simp only [List.mem_map, mem_filter, mem_parts_iff_renderedIn hg hheads hstarts]
  constructor
  · rintro ⟨-, ⟨⟨m, hm, rfl⟩, hneeds⟩, rfl⟩
    rw [hg.node_tree hm.1]
    exact ⟨hm, (hg.needsCounter_tree hm.1).mp hneeds⟩
  · rintro ⟨hn, hcount⟩
    exact ⟨_, ⟨⟨n, hn, rfl⟩, (hg.needsCounter_tree hn.1).mpr hcount⟩, hg.node_tree hn.1⟩

theorem isFreeBound_iff (policy : ReservedPolicy) (k : Nat) :
    (Scope.withVariables (g.resolver policy) { key } (chainParts (treesOf g heads))).isFreeBound
        (g.resolver policy) (Scope.boundName k) = true
      ↔ ¬ g.HasName (Scope.boundName k) := by
  have hne : Scope.boundName k ≠ "" := fun h => by
    have hlist := congrArg String.toList h
    simp [Scope.boundName, suffixed] at hlist
  have hmem : g.HasName (Scope.boundName k) ↔ .text (Scope.boundName k) ∈ g.userNames := by
    rw [hg.mem_userNames_iff, and_iff_right hne]
  have hfree : (g.resolver policy).isFree (Scope.boundName k) = true ↔ .text (Scope.boundName k) ∉ g.userNames := by
    unfold isFree
    rw [Scope.isReservedTask_boundName, Bool.or_false, Bool.not_eq_true', Bool.eq_false_iff, Ne,
      isTaken, isIn_text_iff]
    rfl
  unfold Scope.isFreeBound
  rw [Bool.and_eq_true, hfree, hmem, Bool.not_eq_true', Bool.eq_false_iff, Ne, Scope.contains_iff,
    and_iff_right_iff_imp]
  intro hnot hdeclared
  obtain ⟨v, hv, heq⟩ := ((Scope.withVariables_spec _ _ _).2.2.2 _).mp hdeclared
  obtain ⟨n, hn, hv⟩ := (mem_variablesOf_iff hg hheads hstarts).mp hv
  have hspell := spell_eq_boundName_iff.mp (text.inj heq).symm
  subst hspell
  exact hnot (hg.mem_userNames_of_mem_names hn.1 (u := ⟨_, .variable⟩) (mem_names_of_mem_variables hv))

end Section

theorem stmts_of_hasComputedCount (hg : g.Forest) (hn : g.get? n.handle = some n) (hen : n.enabled = true)
    (hcount : g.HasComputedCount n) (σ : Spelling) : ∃ count body, (g.tree n).stmts σ
      = withComments (g.tree n).remarks [.assign (σ.bound n.handle) count,
          .repeatTimes (.variable (σ.bound n.handle)) body] := by
  have hneeds := (hg.needsCounter_tree hn).mpr hcount
  rw [hg.tree_eq hn] at hneeds ⊢
  rw [BlockTree.stmts, if_pos hen, hneeds]
  simp only [nodeStmts, hcount.1, if_true]
  exact ⟨_, _, rfl⟩

theorem exec_prescan (hg : g.Forest) (hheads : Heads g heads) (hstarts : ∀ h, h ∈ heads ↔ sec.Starts g h)
    {key : ScopeKey} {c : Context} (hs : c.scope = some { key })
    (hnames : (g.resolver options.policy).Sound c.names) :
    (∃ names, (g.resolver options.policy).Sound names ∧ exec (prescan g.catalog (chainsOf g heads)) c
        = (.ok (), { c with scope := some (scopeOf g (g.resolver options.policy) key heads), names }))
      ∨ ∃ n v c', g.RenderedIn sec n ∧ v ∈ n.variables ∧ isReserved v = true ∧ options.policy = .reject
        ∧ exec (prescan g.catalog (chainsOf g heads)) c = (.error (.reserved ⟨v, .variable⟩), c') := by
  -- no remark is read, so the graph for odd remarks is any: one without blocks has none
  have hends : Ends {} (g.resolver options.policy) (prescan g.catalog (chainsOf g heads)) c _ () _ :=
    ends_prescan_chains hg hheads hs
  rcases (hends c.names hnames).2 with ⟨-, names, hsound, hexec⟩ | ⟨-, ⟨v, hv, rfl⟩, hnot, c', hexec, -⟩ | ⟨n, hn, -⟩
  · exact .inl ⟨names, hsound, hexec⟩
  · obtain ⟨n, hn, hv⟩ := (mem_variablesOf_iff hg hheads hstarts).mp hv
    obtain ⟨hforbids, hreject⟩ := not_allows_iff.mp hnot
    exact .inr ⟨n, v, c', hn, hv, hforbids, hreject, hexec⟩
  · exact absurd hn (by simp [get?, cell?])

/-- **Loops have variables of their own.** Collecting the variables of a section ends; unless it refuses a
name, each loop of the section with a computed count has a variable with a number of its own. The numbers
increase in pre-order of the loops and are the least whose names no block of the graph has, and none is a
name that is resolved, or reserved. They are declared after the names of the blocks, and where the program
is written, each loop uses its own. -/
theorem loop_variables_fresh (hg : g.Reachable) (options : Options)
    (hsec : sec ∈ sections options (g.plan (g.resolver options.policy))) (hpart : sec.isPreamble = false) :
    ∃ heads s loops numbers, CountVariables g options sec heads s loops numbers := by
  have hforest := hg.forest
  obtain ⟨hone, hrecords⟩ := sectionRecords_of_ready (r := g.resolver options.policy) hforest options
    (ready_sections hforest options sec hsec)
  rw [hpart, if_neg (by decide)] at hone
  obtain ⟨record, hrecord, -⟩ := List.map_eq_singleton_iff.mp hone
  obtain ⟨key, heads, rfl, hheads, hstarts, hloose, -⟩ :=
    hrecords record (hrecord ▸ List.mem_singleton.mpr rfl)
  obtain ⟨numbers, halloc⟩ :=
    allocated_sectionScope (g.resolver options.policy) key (chainParts (treesOf g heads))
  have hfree : ∀ k, (Scope.withVariables _ { key } _).isFreeBound _ (Scope.boundName k) = true
      ↔ ¬ g.HasName (Scope.boundName k) := isFreeBound_iff hforest hheads hstarts options.policy
  have hsub : (loopsOf (chainParts (treesOf g heads))).Sublist
      ((chainParts (treesOf g heads)).map BlockTree.node) := List.filter_sublist.map _
  have hdistinct := (nodup_chainParts hforest hsec hheads hloose).sublist (hsub.map (·.handle))
  have hkey : (scopeOf g (g.resolver options.policy) key heads).key = key := key_sectionScope _ _ _
  have hgiven : List.Forall₂ (fun (n : Node) k => (scopeOf g (g.resolver options.policy) key heads).auxiliaryName?
      n.handle = some (Scope.boundName k)) (loopsOf (chainParts (treesOf g heads))) numbers := by
    have heq := halloc.map_auxiliaryName? hdistinct
    rw [List.map_map, ← List.forall₂_eq_eq_eq, List.forall₂_map_left_iff, List.forall₂_map_right_iff] at heq
    exact heq
  refine ⟨heads, scopeOf g (g.resolver options.policy) key heads, _, numbers, {
    starts := hstarts
    collected := fun c hs hnames => exec_prescan hforest hheads hstarts (hkey ▸ hs) hnames
    counted := fun n => mem_loopsOf_iff hforest hheads hstarts
    preorder := hsub.trans (chainParts_sublist_below hforest hheads)
    distinct := hdistinct
    given := List.forall₂_iff_zip.mpr ⟨?_, fun {n k} he => ?_⟩
    increasing := halloc.increasing
    fresh := fun k hk => ?_
    least := fun k hk => ⟨(halloc.free k hk).1, fun m hm hlt => ?_⟩
    declared := ?_
    written := fun hexec => ?_ }⟩
  · exact hgiven.length_eq
  · obtain ⟨hrendered, hcount⟩ := (mem_loopsOf_iff hforest hheads hstarts).mp (List.of_mem_zip he).1
    have hname := (List.forall₂_iff_zip.mp hgiven).2 he
    have hbound : (Spelling.ofScope (g.resolver options.policy) (scopeOf g _ key heads)).bound n.handle
        = Scope.boundName k := congrArg (Option.getD · "") hname
    refine ⟨hname, ?_⟩
    rw [← hbound]
    exact stmts_of_hasComputedCount hforest hrendered.1 hrendered.2.1 hcount _
  · have hnone := (hfree k).mp (halloc.free k hk).2
    refine ⟨hnone, Scope.isReservedTask_boundName k, fun u hu hspell => hnone ?_⟩
    have hmem := hforest.mem_userNames_of_mem_programNames hu
    rw [Resolver.spell_eq_boundName_iff.mp hspell] at hmem
    exact (hforest.mem_userNames_iff.mp hmem).2
  · exact or_iff_not_imp_right.mpr fun hnone => halloc.least k hk m hm hlt ((hfree m).mpr hnone)
  · have htexts : ∀ y, y ∈ (Scope.withVariables _ _ _).names ↔ _ :=
      (Scope.withVariables_spec (g.resolver options.policy) key (chainParts (treesOf g heads))).2.2.2
    obtain ⟨users, husers⟩ : (Scope.withVariables (g.resolver options.policy) { key }
        (chainParts (treesOf g heads))).names ∈ Set.range (List.map Name.text) := by
      rw [Set.range_list_map]
      intro y hy
      obtain ⟨v, -, rfl⟩ := (htexts y).mp hy
      exact ⟨_, rfl⟩
    refine ⟨users, ?_, fun x => ?_⟩
    · rw [List.map_append, husers, List.map_map]
      exact halloc.names
    · rw [← List.mem_map_of_injective (f := Name.text) fun a b => Name.text.inj, husers, htexts]
      simp only [mem_variablesOf_iff hforest hheads hstarts, Name.text.injEq]
      constructor
      · rintro ⟨v, ⟨n, hn, hv⟩, hx⟩
        exact ⟨n, v, hn, hv, hx⟩
      · rintro ⟨n, v, hn, hv, hx⟩
        exact ⟨v, ⟨n, hn, hv⟩, hx⟩
  · rcases exec_recordProgram hforest options with
      ⟨-, names, hexec'⟩ | ⟨u, -, -, c', hexec', -⟩ | ⟨n, -, -, c', hexec', -⟩ <;> rw [hexec'] at hexec
    · cases hexec
      exact ⟨_, List.mem_flatMap.mpr ⟨sec, hsec, hrecord ▸ List.mem_singleton.mpr rfl⟩, rfl, rfl, rfl, rfl⟩
    · cases hexec
    · cases hexec

def nestedLoops : { g : Graph // g.Reachable ∧ (run g {}).2 = none } :=
  ⟨(Editor.run {} [.create "main_task" {}, .create "repeat_times" {},
      .connectStatement 1 "STATEMENTS" 2, .create "arithmetic" {}, .connectValue 2 "TIMES" 3,
      .create "repeat_times" {}, .connectStatement 2 "DO" 4, .create "arithmetic" {}, .connectValue 4 "TIMES" 5,
      .create "variable_set" { fields := [("VAR", .text "repeat_bound_2")], enabled := false },
      .connectNext 4 6, .create "repeat_times" {}, .connectNext 2 7, .create "arithmetic" {},
      .connectValue 7 "TIMES" 8]).graph,
    reachable_run .empty _, Option.isNone_iff_eq_none.mp (by decide +kernel)⟩

/-- Two loops, one in the other, and a third after them have the variables 1, 3 and 4, if a disabled block
has the name with the number 2. -/
theorem loop_variables_fresh_nested :
    let g := (Editor.run {} [.create "main_task" {}, .create "repeat_times" {},
      .connectStatement 1 "STATEMENTS" 2, .create "arithmetic" {}, .connectValue 2 "TIMES" 3,
      .create "repeat_times" {}, .connectStatement 2 "DO" 4, .create "arithmetic" {}, .connectValue 4 "TIMES" 5,
      .create "variable_set" { fields := [("VAR", .text "repeat_bound_2")], enabled := false },
      .connectNext 4 6, .create "repeat_times" {}, .connectNext 2 7, .create "arithmetic" {},
      .connectValue 7 "TIMES" 8]).graph
    g.Reachable ∧ Section.task 1 ∈ sections {} (g.plan (g.resolver .rename))
      ∧ ∃ heads s loops numbers, CountVariables g {} (.task 1) heads s loops numbers
        ∧ s.declarations "" = "int repeat_bound_1;\nint repeat_bound_3;\nint repeat_bound_4;\n\n" := by
  intro g
  obtain ⟨hreach, hrun⟩ : g.Reachable ∧ (run g {}).2 = none := nestedLoops.2
  have hsec : Section.task 1 ∈ sections {} (g.plan (g.resolver .rename)) := by decide +kernel
  have hopened : ∀ record ∈ programRecords g {}, record.opened.map (·.declarations "")
      = some "int repeat_bound_1;\nint repeat_bound_3;\nint repeat_bound_4;\n\n" := by decide +kernel
  obtain ⟨heads, s, loops, numbers, hloops⟩ := loop_variables_fresh hreach {} hsec rfl
  obtain ⟨-, -, c, hexec, -⟩ := exec_of_run hreach.forest hrun
  obtain ⟨record, hrecord, -, hs, -⟩ := hloops.written hexec
  have htext := hopened record hrecord
  rw [hs] at htext
  exact ⟨hreach, hsec, heads, s, loops, numbers, hloops, Option.some.inj htext⟩

end Generation

end NqcBlocks
