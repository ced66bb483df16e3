import NqcBlocks.Proofs.Program.Ownership
import NqcBlocks.Proofs.Program.Transcript

/-!
# The lines of a program

The text of a program is written in its lines (`written_program`). The blocks that lines belong to are the tasks
of the program, and the rendered blocks that are statements or stand on their own (`mem_programOwners`). No block
is written twice (`nodup_programVoices`).
-/

namespace NqcBlocks

open Nqc Text List Option Plan

variable {n root : Node} {heads : List Handle} {sec : Section} {p : BlockTree}

namespace Generation

open Graph

theorem written_program {g : Graph} {options : Options} (hg : g.Forest)
    (hm : ∀ c ∈ options.indent.toList, IsMargin c) (hpreamble : options.preamble = "") {text : String}
    (hcode : code g options = .ok text) : Written IsPlain options.indent text (programLines g options) := by
  rw [(transcript_of_code hg hcode).2]
  exact written_intercalate fun sec hsec =>
    written_section hg hm (ready_sections hg options sec hsec) (isPreamble_of_mem_sections hpreamble sec hsec)

/-! ## Programs without remarks -/

section Mute

variable {g : Graph} {r : Resolver} {options : Options}

theorem blockLines_mute (hg : g.Forest) (hheads : Heads g heads) (key : ScopeKey) :
    blockLines g.mute r key heads = (blockLines g r key heads).map Line.mute := by
  unfold blockLines
  rw [spellingOf_mute hg hheads, treesOf_mute hg hheads, chainLines_mute]

theorem map_mute_declarationLines (depth : Nat) (s : Scope) :
    (declarationLines depth s).map Line.mute = declarationLines depth s := by
  unfold declarationLines
  rw [map_append, List.map_map]
  refine congrArg _ ?_
  split <;> rfl

theorem map_mute_taskLines (owner : Option BlockTree) (name : String) (s : Scope) (body : List Line) :
    (taskLines owner name s body).map Line.mute
      = taskLines (owner.map (·.revise muting)) name s (body.map Line.mute) := by
  unfold taskLines
  rw [map_cons, map_cons, map_append, map_append, map_mute_declarationLines, map_mute_inner]
  rfl

theorem sectionLines_mute (hg : g.Forest) (hsec : Ready g sec) :
    sectionLines g.mute r sec = (sectionLines g r sec).map Line.mute := by
  cases hsec with
  | preamble _ => rfl
  | @global loose hheads =>
    rw [sectionLines, sectionLines, scopeOf_mute hg hheads, blockLines_mute hg hheads, map_append,
      map_mute_declarationLines]
  | @main loose hheads =>
    rw [sectionLines, sectionLines, scopeOf_mute hg hheads, blockLines_mute hg hheads, map_mute_taskLines]
    rfl
  | @task n hn hk =>
    have hheads : Heads g (taskOf r n).heads := heads_task hg hn (hk.imp id (·.1))
    have htask : taskOf r n.mute = taskOf r n := rfl
    rw [sectionLines, sectionLines, get?_mute, hn, map_some, map_some, map_some,
      getD_some, getD_some, htask, scopeOf_mute hg hheads, blockLines_mute hg hheads,
      map_mute_taskLines, tree_mute]
    rfl

theorem map_mute_joinLines : ∀ lss : List (List Line),
    (joinLines lss).map Line.mute = joinLines (lss.map (List.map Line.mute))
  | [] => rfl
  | [ls] => rfl
  | ls :: ls' :: rest => by
    rw [joinLines, map_append, map_cons, map_mute_joinLines (ls' :: rest)]
    rfl

theorem programLines_mute (hg : g.Forest) (options : Options) :
    programLines g.mute options = (programLines g options).map Line.mute := by
  unfold programLines
  dsimp only
  rw [g.resolver_mute, g.plan_mute, map_mute_joinLines, List.map_map]
  exact congrArg joinLines (map_congr_left fun sec hsec =>
    sectionLines_mute hg (ready_sections hg options sec hsec))

end Mute

/-! ## The blocks that lines belong to -/

def sectionRoots : Section → List Handle
  | .preamble _ => []
  | .global loose | .main loose => loose
  | .task root => [root]

section Owners

variable {g : Graph} {r : Resolver} {options : Options}

theorem chainOwners_flatten : ∀ chains : List (List BlockTree),
    chainOwners chains.flatten = chains.flatMap chainOwners
  | [] => rfl
  | chain :: chains => by
    rw [flatten_cons, chainOwners_append, chainOwners_flatten chains, flatMap_cons]

theorem ownersOf_blockLines (hg : g.Forest) (hheads : Heads g heads) (key : ScopeKey) :
    ownersOf (blockLines g r key heads) = heads.flatMap fun h => chainOwners (g.trees (some h)) := by
  have howners : ownersOf (blockLines g r key heads) = chainOwners (treesOf g heads) := by
    refine ownersOf_chainLines fun t ht => ?_
    obtain ⟨hsound, hren⟩ := hheads.trees hg t ht
    exact hsound.owners_lines _ hren
  rw [howners, treesOf, chainOwners_flatten, chainsOf, flatMap_map]
  refine flatMap_congr fun h hh => ?_
  obtain ⟨n, hn, -⟩ := hheads h hh
  rw [hg.headTrees_eq hn]

theorem ownersOf_declarationLines (depth : Nat) (s : Scope) : ownersOf (declarationLines depth s) = [] := by
  unfold declarationLines ownersOf
  rw [filterMap_append, filterMap_map]
  split
  · exact append_nil _ ▸ filterMap_eq_nil_iff.mpr fun _ _ => rfl
  · exact append_nil _ ▸ filterMap_eq_nil_iff.mpr fun _ _ => rfl

theorem ownersOf_taskLines (owner : Option BlockTree) (name : String) (s : Scope) (body : List Line) :
    ownersOf (taskLines owner name s body) = owner.toList ++ ownersOf body := by
  have hbody : ownersOf (declarationLines 1 s ++ body.map Line.inner ++ [{ code := "\x7d" }]) = ownersOf body := by
    rw [ownersOf_append, ownersOf_append, ownersOf_declarationLines, ownersOf_inner, nil_append]
    exact append_nil _
  rw [taskLines, ← hbody]
  cases owner <;> rfl

theorem chainOwners_task (hg : g.Forest) (hn : g.get? n.handle = some n) (hen : n.enabled = true)
    (hk : n.kind = .mainTask ∨ n.kind = .namedTask) :
    chainOwners (g.trees (some n.handle)) = g.tree n
      :: (n.at? "STATEMENTS").toList.flatMap fun h => chainOwners (g.trees (some h)) := by
  obtain ⟨-, spec, hc⟩ := hg.sound hn
  have hnext : n.next = none := by
    cases hnext : n.next with
    | none => rfl
    | some c =>
      obtain ⟨-, -, -, hst, -⟩ := hg.exists_next hn hnext
      unfold Node.isStatement at hst
      rcases hk with hk | hk <;> rw [hk] at hst <;> cases hst
  obtain ⟨target, htarget⟩ : ∃ target, n.statementSlots = [("STATEMENTS", target)] := by
    have hnames := hc.taskSlots hk
    unfold Table.names at hnames
    obtain ⟨⟨slot, target⟩, hslots, hslot⟩ := List.map_eq_singleton_iff.mp hnames
    exact ⟨target, by rw [hslots, ← hslot]⟩
  have hat : n.at? "STATEMENTS" = target := Forest.at?_of_mem_statementSlots hc (htarget ▸ mem_singleton.mpr rfl)
  have hchain : chainOwners (g.trees target) = target.toList.flatMap fun h => chainOwners (g.trees (some h)) := by
    cases target with
    | none => rw [trees, treesWithin_none]; rfl
    | some h => exact (flatMap_singleton _ _).symm
  rw [hg.trees_eq hn, hnext, trees, treesWithin_none, chainOwners, chainOwners, append_nil, hat,
    ← hchain, hg.tree_eq hn, htarget, BlockTree.owners, if_pos hen]
  simp [bodyOwners]

theorem ownersOf_sectionLines (hg : g.Forest) (hsec : sec ∈ sections options (g.plan r)) :
    ownersOf (sectionLines g r sec) = (sectionRoots sec).flatMap fun h => chainOwners (g.trees (some h)) := by
  have hloose := heads_loose (r := r) hg
  rcases mem_sections_iff.mp hsec with ⟨-, rfl⟩ | ⟨-, -, rfl⟩ | ⟨root, hroot, rfl⟩ | ⟨-, rfl⟩
  · rfl
  · rw [sectionLines, ownersOf_append, ownersOf_declarationLines, ownersOf_blockLines hg hloose]
    rfl
  · obtain ⟨n, ⟨hn, hen, hk⟩, rfl⟩ := hg.mem_plan_tasks.mp hroot
    have hkind := hk.imp (·.1) (·.1)
    have hheads : Heads g (taskOf r n).heads := heads_task hg hn hkind
    rw [sectionLines, hn, map_some, getD_some, ownersOf_taskLines,
      ownersOf_blockLines hg hheads, sectionRoots, flatMap_singleton, chainOwners_task hg hn hen hkind]
    rfl
  · rw [sectionLines, ownersOf_taskLines, ownersOf_blockLines hg hloose]
    rfl

theorem ownersOf_joinLines : ∀ lss : List (List Line), ownersOf (joinLines lss) = lss.flatMap ownersOf
  | [] => rfl
  | [ls] => (flatMap_singleton _ _).symm
  | ls :: ls' :: rest => by
    rw [joinLines, ownersOf_append, ownersOf_code, ownersOf_joinLines (ls' :: rest)]
    exact flatMap_cons.symm

def programRoots (g : Graph) (options : Options) : List Handle :=
  (sections options (g.plan (g.resolver options.policy))).flatMap sectionRoots

theorem ownersOf_programLines (hg : g.Forest) (options : Options) : ownersOf (programLines g options)
      = (programRoots g options).flatMap fun h => chainOwners (g.trees (some h)) := by
  unfold programLines programRoots
  dsimp only
  rw [ownersOf_joinLines, flatMap_map, flatMap_assoc]
  exact flatMap_congr fun sec hsec => ownersOf_sectionLines hg hsec

theorem programRoots_eq (g : Graph) (options : Options) : let p := g.plan (g.resolver options.policy)
    programRoots g options = if p.hasMain then p.loose ++ p.tasks else p.tasks ++ p.loose := by
  have htasks : ∀ tasks : List Handle, (tasks.map Section.task).flatMap sectionRoots = tasks := by
    intro tasks
    rw [flatMap_map]
    exact flatMap_singleton' tasks
  intro p
  unfold programRoots sections
  rcases p.loose with _ | ⟨h, loose⟩ <;> cases p.hasMain <;> cases options.preamble.isEmpty <;>
    simp [p, sectionRoots, htasks]

theorem mem_programRoots {h : Handle} : h ∈ programRoots g options
    ↔ h ∈ (g.plan (g.resolver options.policy)).loose ∨ h ∈ (g.plan (g.resolver options.policy)).tasks := by
  rw [programRoots_eq]
  split
  · exact mem_append
  · rw [mem_append, or_comm]

theorem loose_putAll (r : Resolver) : ∀ (ns : List Node) (p : Plan) (seen : List String),
    ∃ own, (putAll r p seen ns).loose = p.loose ++ own ∧ own.Sublist (ns.map (·.handle))
  | [], p, _ => ⟨[], (append_nil _).symm, List.Sublist.refl _⟩
  | n :: ns, p, seen => by
    obtain ⟨first, hfirst, hsub⟩ : ∃ own, (put r p seen n).1.loose = p.loose ++ own
        ∧ own.Sublist [n.handle] := by
      unfold put
      split
      · split
        case h_3 => exact ⟨[n.handle], rfl, List.Sublist.refl _⟩
        all_goals exact ⟨[], by split_ifs <;> simp [skip, addTask], nil_sublist _⟩
      · exact ⟨[], (append_nil _).symm, nil_sublist _⟩
    obtain ⟨own, hown, hrest⟩ := loose_putAll r ns (put r p seen n).1 (put r p seen n).2
    exact ⟨first ++ own, by rw [putAll, hown, hfirst, append_assoc], hsub.append hrest⟩

theorem nodup_plan_loose (hg : g.Forest) : (g.plan r).loose.Nodup := by
  obtain ⟨own, hown, hsub⟩ := loose_putAll r g.topBlocks {} []
  have hloose : (g.plan r).loose = own := hown
  rw [hloose]
  exact (hg.sorted_nodes.sublist (hsub.trans (List.filter_sublist.map _))).imp Nat.ne_of_lt

theorem nodup_programRoots (hg : g.Forest) : (programRoots g options).Nodup := by
  have hloose := nodup_plan_loose (r := g.resolver options.policy) hg
  have htasks : (g.plan (g.resolver options.policy)).tasks.Nodup := hg.sorted_plan_tasks.imp Nat.ne_of_lt
  -- a task is not loose
  have hdisjoint : (g.plan (g.resolver options.policy)).loose.Disjoint
      (g.plan (g.resolver options.policy)).tasks := by
    intro h hh hh'
    obtain ⟨n, ⟨hn, -, -, hmain, hnamed⟩, rfl⟩ := hg.mem_plan_loose.mp hh
    obtain ⟨m, ⟨hm, -, hk⟩, hhandle⟩ := hg.mem_plan_tasks.mp hh'
    rw [← hhandle, hn] at hm
    cases hm
    exact hk.elim (fun h => hmain h.1) fun h => hnamed h.1
  rw [programRoots_eq]
  split
  · exact hloose.append htasks hdisjoint
  · exact htasks.append hloose hdisjoint.symm

theorem exists_of_mem_programRoots (hg : g.Forest) {h : Handle}
    (hh : h ∈ programRoots g options) :
    ∃ n, g.get? h = some n ∧ n.parent = none ∧ n.enabled = true ∧ (g.Planned n ∨ g.Loose n) := by
  rcases mem_programRoots.mp hh with hh | hh
  · obtain ⟨n, hloose, rfl⟩ := hg.mem_plan_loose.mp hh
    exact ⟨n, hloose.1, hloose.2.2.1, hloose.2.1, .inr hloose⟩
  · obtain ⟨n, hplanned, rfl⟩ := hg.mem_plan_tasks.mp hh
    have hparent := (hg.typedForest.tasks n (hg.mem_nodes_iff_get?.mpr hplanned.1) (hplanned.2.2.imp (·.1) (·.1))).1
    exact ⟨n, hplanned.1, hparent, hplanned.2.1, .inl hplanned⟩

theorem eq_of_follows (hg : g.Forest) (hroot : g.get? root.handle = some root)
    (hn : g.get? n.handle = some n) (hparent : n.parent = none)
    (hreach : Relation.ReflTransGen g.Follows root.handle n.handle) : n = root := by
  rcases Relation.ReflTransGen.cases_tail hreach with heq | ⟨x, -, hlast⟩
  · rw [heq, hroot] at hn
    exact (Option.some.inj hn).symm
  · obtain ⟨m, hm⟩ : ∃ m, g.get? x = some m := by
      cases hlast with
      | next hm _ => exact ⟨_, hm⟩
      | slot hm _ _ _ => exact ⟨_, hm⟩
    obtain ⟨k, -, hat, -⟩ := hg.exists_of_follows hm hlast
    obtain ⟨n', hn', hp, -⟩ := hg.exists_child hm hat
    rw [hn] at hn'
    cases hn'
    rw [hparent] at hp
    cases hp

theorem mem_chainOwners_trees (hg : g.Forest) (hroot : g.get? root.handle = some root) :
    p ∈ chainOwners (g.trees (some root.handle)) ↔ ∃ n, p = g.tree n ∧ g.get? n.handle = some n ∧ n.enabled = true
        ∧ Relation.ReflTransGen g.Follows root.handle n.handle
        ∧ (n = root ∨ n.isStatement = true) := by
  rw [hg.mem_chainOwners_iff hroot, hg.mem_chainParts_iff hroot]
  constructor
  · rintro ⟨⟨x, n, hreach, hn, hen, rfl⟩, hor⟩
    have hhandle := hg.handle_eq hn
    subst hhandle
    refine ⟨n, rfl, hn, hen, hreach, ?_⟩
    rw [hg.node_tree hn] at hor
    refine hor.imp_left fun heq => ?_
    rw [← hg.node_tree hn, heq, hg.node_tree hroot]
  · rintro ⟨n, rfl, hn, hen, hreach, hor⟩
    refine ⟨⟨_, n, hreach, hn, hen, rfl⟩, ?_⟩
    rw [hg.node_tree hn]
    exact hor.imp_left (congrArg g.tree)

theorem rendered_of_mem_chainOwners (hg : g.Forest) (hplanned : g.Planned root)
    (hn : g.get? n.handle = some n) (hne : n ≠ root)
    (hmem : g.tree n ∈ chainOwners (g.trees (some root.handle))) : g.Rendered n := by
  obtain ⟨hroot, hen, hk⟩ := id hplanned
  rw [chainOwners_task hg hroot hen (hk.imp (·.1) (·.1))] at hmem
  rcases mem_cons.mp hmem with heq | hmem
  · refine absurd ?_ hne
    rw [← hg.node_tree hn, heq, hg.node_tree hroot]
  · obtain ⟨h, hh, hmem⟩ := mem_flatMap.mp hmem
    obtain ⟨first, hfirst, -⟩ := heads_task hg hroot (hk.imp (·.1) (·.1)) h hh
    have hhandle := hg.handle_eq hfirst
    subst hhandle
    obtain ⟨m, heq, hm, hmen, hreach, -⟩ := (mem_chainOwners_trees hg hfirst).mp hmem
    have hnm : n = m := by rw [← hg.node_tree hn, heq, hg.node_tree hm]
    subst hnm
    exact ⟨hn, hmen, _, .task hplanned ((mem_heads_iff hg hroot).mp hh), hreach⟩

theorem mem_ownersOf_programLines (hg : g.Forest) :
    p ∈ ownersOf (programLines g options) ↔ ∃ n, p = g.tree n ∧ g.get? n.handle = some n
      ∧ (g.Planned n ∨ g.Rendered n ∧ (n.isStatement = true ∨ n.parent = none)) := by
  rw [ownersOf_programLines hg, mem_flatMap]
  constructor
  · rintro ⟨h, hh, hp⟩
    obtain ⟨root, hroot, hparent, -, hsort⟩ := exists_of_mem_programRoots hg hh
    have hhandle := hg.handle_eq hroot
    subst hhandle
    obtain ⟨n, rfl, hn, hen, hreach, hor⟩ := (mem_chainOwners_trees hg hroot).mp hp
    refine ⟨n, rfl, hn, ?_⟩
    rcases hsort with hplanned | hloose
    · by_cases heq : n = root
      · exact .inl (heq ▸ hplanned)
      · exact .inr ⟨rendered_of_mem_chainOwners hg hplanned hn heq hp, .inl (hor.resolve_left heq)⟩
    · refine .inr ⟨⟨hn, hen, _, .loose hloose, hreach⟩, ?_⟩
      exact hor.symm.imp_right fun heq => by rw [heq, hparent]
  · rintro ⟨n, rfl, hn, hplanned | ⟨⟨-, hen, start, hstart, hreach⟩, hor⟩⟩
    · exact ⟨n.handle, mem_programRoots.mpr (.inr (hg.mem_plan_tasks.mpr ⟨n, hplanned, rfl⟩)),
        (mem_chainOwners_trees hg hn).mpr ⟨n, rfl, hn, hplanned.2.1, .refl, .inl rfl⟩⟩
    · cases hstart with
      | @task root _ hplanned hholds =>
        obtain ⟨hroot, hrootEnabled, -⟩ := id hplanned
        have hbelow : Relation.ReflTransGen g.Follows root.handle n.handle :=
          .head (.slot hroot hrootEnabled (by decide) hholds) hreach
        refine ⟨root.handle, mem_programRoots.mpr
          (.inr (hg.mem_plan_tasks.mpr ⟨root, hplanned, rfl⟩)), (mem_chainOwners_trees hg hroot).mpr
            ⟨n, rfl, hn, hen, hbelow, hor.symm.imp_left fun hparent => ?_⟩⟩
        exact eq_of_follows hg hroot hn hparent hbelow
      | @loose root hloose =>
        refine ⟨root.handle, mem_programRoots.mpr
          (.inl (hg.mem_plan_loose.mpr ⟨root, hloose, rfl⟩)), (mem_chainOwners_trees hg hloose.1).mpr
            ⟨n, rfl, hn, hen, hreach, hor.symm.imp_left fun hparent => ?_⟩⟩
        exact eq_of_follows hg hloose.1 hn hparent hreach

theorem get?_of_mem_voices (hg : g.Forest)
    (hp : p ∈ ownersOf (programLines g options)) {m : Node} (hm : m ∈ p.voices) : g.get? m.handle = some m := by
  rw [ownersOf_programLines hg] at hp
  obtain ⟨h, hh, hp⟩ := mem_flatMap.mp hp
  obtain ⟨root, hroot, hparent, -⟩ := exists_of_mem_programRoots hg hh
  exact ((hg.mem_subtree_iff hroot).mp
    ((hg.chainVoices_sublist_subtree hroot).subset (mem_flatMap.mpr ⟨p, hp, hm⟩))).1

theorem nodup_programVoices (hg : g.Forest) :
    (((ownersOf (programLines g options)).flatMap BlockTree.voices).map (·.handle)).Nodup := by
  rw [ownersOf_programLines hg, flatMap_assoc]
  refine hg.nodup_chainVoices (nodup_programRoots hg) fun h hh => ?_
  obtain ⟨root, hroot, hparent, -⟩ := exists_of_mem_programRoots hg hh
  exact ⟨root, hroot, hparent⟩

def programOwners (g : Graph) (options : Options) : List Node :=
  (ownersOf (programLines g options)).map (·.node)

theorem map_tree_programOwners (hg : g.Forest) :
    (programOwners g options).map g.tree = ownersOf (programLines g options) := by
  unfold programOwners
  rw [List.map_map]
  refine (map_congr_left fun p hp => ?_).trans (List.map_id _)
  obtain ⟨n, rfl, hn, -⟩ := (mem_ownersOf_programLines hg).mp hp
  show g.tree (g.tree n).node = g.tree n
  rw [hg.node_tree hn]

theorem mem_programOwners (hg : g.Forest) : n ∈ programOwners g options
      ↔ g.Planned n ∨ g.Rendered n ∧ (n.isStatement = true ∨ n.parent = none) := by
  unfold programOwners
  rw [List.mem_map]
  constructor
  · rintro ⟨p, hp, rfl⟩
    obtain ⟨n, rfl, hn, hsort⟩ := (mem_ownersOf_programLines hg).mp hp
    rw [hg.node_tree hn]
    exact hsort
  · intro hsort
    have hn : g.get? n.handle = some n := hsort.elim (·.1) (·.1.1)
    exact ⟨g.tree n, (mem_ownersOf_programLines hg).mpr ⟨n, rfl, hn, hsort⟩, hg.node_tree hn⟩

end Owners

end Generation

end NqcBlocks
