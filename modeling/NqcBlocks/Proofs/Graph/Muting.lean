import NqcBlocks.Proofs.Graph.Revision
import NqcBlocks.Proofs.Program.RoundTrip
import NqcBlocks.Proofs.Validation.Ruling

/-!
# Graphs without remarks

The graph in which no block has a remark, and everything else is as it was. Unfolding it gives the trees
of the graph without their remarks (`Graph.tree_mute`). What a program is made of does not depend
on remarks: the plan, the scopes of its sections, the spelling of names, and the names that have to be
allowed are those of the graph (`Generation.programNames_mute`), so that its program can be generated
whenever that of the graph can (`Generation.exists_code_mute`).
-/

namespace NqcBlocks

open List Plan BlockTree

variable {heads : List Handle}

def Node.mute (n : Node) : Node := { n with comment := none }

/-- Trees without remarks. -/
abbrev muting : Revision := .ofNode Node.mute

def Graph.mute (g : Graph) : Graph := g.mapNodes Node.mute

theorem Node.keepsLinks_mute : KeepsLinks Node.mute := ⟨fun _ => rfl, fun _ => rfl, fun _ => rfl, fun _ => rfl⟩

/-! ## Trees -/

mutual
theorem BlockTree.remarks_mute : ∀ t : BlockTree, (t.revise muting).remarks = ""
  | .mk n _ operands _ => by
    rw [revise, remarks, operandRemarks_mute operands]
    rfl
theorem operandRemarks_mute : ∀ operands : Operands,
    operandRemarks (reviseOperands muting operands) = ""
  | [] => rfl
  | (_, none) :: rest => by
    rw [reviseOperands, operandRemarks]
    exact operandRemarks_mute rest
  | (_, some t) :: rest => by
    rw [reviseOperands_cons_some, operandRemarks, t.remarks_mute, operandRemarks_mute rest]
    rfl
end

mutual
theorem BlockTree.reading_mute (σ : Spelling) : ∀ t : BlockTree, (t.revise muting).reading σ = t.reading σ
  | .mk n _ operands _ => by
    rw [revise, reading, reading, readings_mute σ operands]
    rfl
theorem readings_mute (σ : Spelling) : ∀ operands : Operands,
    readings σ (reviseOperands muting operands) = readings σ operands
  | [] => rfl
  | (_, none) :: rest => by
    rw [reviseOperands, readings, readings, readings_mute σ rest]
  | (_, some t) :: rest => by
    rw [reviseOperands_cons_some, readings, readings, readings_mute σ rest, t.reading_mute σ, t.node_revise]
    rfl
end

theorem BlockTree.needsCounter_mute (t : BlockTree) : (t.revise muting).needsCounter = t.needsCounter := by
  unfold needsCounter
  rw [t.operands_revise, get?_reviseOperands, t.node_revise]
  refine congrArg _ ?_
  rcases Table.get? "TIMES" t.operands with _ | _ | bound
  · rfl
  · rfl
  · show Catalog.builtin.isComputed (bound.revise muting).node = _
    rw [bound.node_revise]
    rfl

mutual
theorem BlockTree.parts_mute : ∀ t : BlockTree, (t.revise muting).parts = t.parts.map (·.revise muting)
  | .mk n attached operands bodies => by
    rw [revise, parts, parts, operandParts_mute operands, bodyParts_mute bodies]
    show (if n.enabled then _ else []) = _
    split
    · rw [map_cons, map_append, revise]
    · rfl
theorem operandParts_mute : ∀ operands : Operands,
    operandParts (reviseOperands muting operands) = (operandParts operands).map (·.revise muting)
  | [] => rfl
  | (_, none) :: rest => by
    rw [reviseOperands, operandParts, operandParts, operandParts_mute rest]
  | (_, some t) :: rest => by
    rw [reviseOperands_cons_some, operandParts, operandParts, operandParts_mute rest, t.parts_mute, map_append]
theorem bodyParts_mute : ∀ bodies : Bodies,
    bodyParts (reviseBodies muting bodies) = (bodyParts bodies).map (·.revise muting)
  | [] => rfl
  | (_, chain) :: rest => by
    rw [reviseBodies, bodyParts, bodyParts, bodyParts_mute rest, chainParts_mute chain, map_append]
theorem chainParts_mute : ∀ chain : List BlockTree,
    chainParts (reviseChain muting chain) = (chainParts chain).map (·.revise muting)
  | [] => rfl
  | t :: rest => by
    rw [reviseChain_cons, chainParts, chainParts, chainParts_mute rest, t.parts_mute, map_append]
end

theorem sectionScope_mute (r : Resolver) (key : ScopeKey) (parts : List BlockTree) :
    sectionScope r key (parts.map (·.revise muting)) = sectionScope r key parts := by
  have hvariables : variablesOf (parts.map (·.revise muting)) = variablesOf parts := by
    unfold variablesOf
    rw [flatMap_map]
    refine flatMap_congr fun t _ => ?_
    rw [t.node_revise]
    rfl
  have hloops : (loopsOf (parts.map (·.revise muting))).map (·.handle) = (loopsOf parts).map (·.handle) := by
    unfold loopsOf
    rw [filter_map, map_map, map_map, map_map]
    refine congr (congrArg _ (funext fun t => ?_)) (filter_congr fun t _ => t.needsCounter_mute)
    show (t.revise muting).node.handle = _
    rw [t.node_revise]
    rfl
  unfold sectionScope Scope.withVariables
  rw [hvariables, hloops]

theorem namesOf_mute (parts : List BlockTree) : namesOf (parts.map (·.revise muting)) = namesOf parts := by
  ext u
  show (∃ p ∈ parts.map (·.revise muting), u ∈ p.node.names) ↔ ∃ p ∈ parts, u ∈ p.node.names
  simp only [mem_map, exists_exists_and_eq_and, node_revise]
  exact Iff.rfl

/-! ## Graphs -/

namespace Graph

variable {g : Graph}

theorem get?_mute (h : Handle) : g.mute.get? h = (g.get? h).map Node.mute := get?_mapNodes h

theorem depth_mute : g.mute.depth = g.depth := by
  unfold depth mute mapNodes
  rw [Array.size_map]

theorem topBlocks_mute : g.mute.topBlocks = g.topBlocks.map Node.mute := by
  unfold topBlocks mute
  rw [nodes_mapNodes, filter_map]
  rfl

theorem userNames_mute (g : Graph) : g.mute.userNames = g.userNames := by
  have hidentifiers : g.mute.identifiers = g.identifiers := by
    unfold identifiers mute
    rw [nodes_mapNodes, flatMap_map]
    rfl
  unfold userNames
  rw [hidentifiers]

theorem resolver_mute (g : Graph) (policy : ReservedPolicy) : g.mute.resolver policy = g.resolver policy := by
  unfold resolver
  rw [g.userNames_mute]

theorem plan_mute (g : Graph) (r : Resolver) : g.mute.plan r = g.plan r := by
  have hputAll : ∀ (ns : List Node) (p : Plan) (seen : List String),
      putAll r p seen (ns.map Node.mute) = putAll r p seen ns := by
    intro ns
    induction ns with
    | nil => exact fun _ _ => rfl
    | cons n ns ih =>
      intro p seen
      have hput : put r p seen n.mute = put r p seen n := rfl
      rw [map_cons, putAll, putAll, hput, ih]
  unfold plan
  rw [topBlocks_mute, hputAll]

theorem Forest.mute (hg : g.Forest) : g.mute.Forest := by
  refine hg.of_links rfl ?_ ?_ (fun h => ?_) (fun p => ?_)
  · intro h n' hn'
    rw [get?_mute] at hn'
    obtain ⟨n, hn, rfl⟩ := Option.map_eq_some_iff.mp hn'
    obtain ⟨hh, spec, hc⟩ := hg.sound hn
    exact ⟨hh, spec, ⟨hc.known, hc.sockets, hc.fieldNames, hc.held⟩⟩
  · rintro p h ⟨m, n, hm, hn, ht⟩
    have hsocket : m.mute.socket? p.connection = m.socket? p.connection := rfl
    have hkind : n.mute.kind = n.kind := rfl
    have ht' : m.mute.Takes p.connection n.mute := (Node.takes_congr hsocket hkind).mpr ht
    exact ⟨m.mute, n.mute, by rw [get?_mute, hm]; rfl, by rw [get?_mute, hn]; rfl, ht'⟩
  · unfold parent?
    rw [get?_mute, Option.map_map]
    rfl
  · unfold at?
    rw [get?_mute]
    cases g.get? p.owner <;> rfl

theorem tree_mute (n : Node) : g.mute.tree n.mute = (g.tree n).revise muting := by
  unfold tree
  rw [depth_mute]
  exact treeWithin_revise Node.keepsLinks_mute get?_mute g.depth n

theorem trees_mute (target : Option Handle) : g.mute.trees target = reviseChain muting (g.trees target) := by
  unfold trees
  rw [depth_mute]
  exact treesWithin_revise Node.keepsLinks_mute get?_mute g.depth target

end Graph

/-! ## Programs -/

namespace Generation

open Graph

variable {g : Graph} {r : Resolver} {options : Options}

theorem treesOf_mute (hg : g.Forest) (hheads : Heads g heads) :
    treesOf g.mute heads = reviseChain muting (treesOf g heads) := by
  unfold treesOf chainsOf
  rw [reviseChain_flatten, map_map]
  refine congrArg _ (map_congr_left fun h hh => ?_)
  obtain ⟨n, hn, -⟩ := hheads h hh
  have hn' : g.mute.get? h = some n.mute := by rw [get?_mute, hn]; rfl
  show _ = reviseChain muting (g.headTrees h)
  rw [hg.mute.headTrees_eq hn', hg.headTrees_eq hn, trees_mute]

theorem scopeOf_mute (hg : g.Forest) (hheads : Heads g heads) (key : ScopeKey) :
    scopeOf g.mute r key heads = scopeOf g r key heads := by
  unfold scopeOf
  rw [treesOf_mute hg hheads, chainParts_mute, sectionScope_mute]

theorem spellingOf_mute (hg : g.Forest) (hheads : Heads g heads) (key : ScopeKey) :
    spellingOf g.mute r key heads = spellingOf g r key heads := by
  unfold spellingOf
  rw [scopeOf_mute hg hheads]

theorem namesOf_treesOf_mute (hg : g.Forest) (hheads : Heads g heads) :
    namesOf (chainParts (treesOf g.mute heads)) = namesOf (chainParts (treesOf g heads)) := by
  rw [treesOf_mute hg hheads, chainParts_mute, namesOf_mute]

theorem sectionNames_mute (hg : g.Forest) {sec : Section} (hsec : Ready g sec) :
    sectionNames g.mute sec = sectionNames g sec := by
  cases hsec with
  | preamble _ => rfl
  | global hheads => exact namesOf_treesOf_mute hg hheads
  | main hheads => exact namesOf_treesOf_mute hg hheads
  | @task n hn hk =>
    have hheads := heads_task hg hn (hk.imp id (·.1))
    ext u
    rw [sectionNames, sectionNames, get?_mute, hn]
    simp only [Option.map_some, Set.mem_ofPred_eq, Option.some.injEq, exists_eq_left']
    show _ ∨ u ∈ namesOf (chainParts (treesOf g.mute (n.at? "STATEMENTS").toList)) ↔ _
    rw [namesOf_treesOf_mute hg hheads]
    exact Iff.rfl

theorem programNames_mute (hg : g.Forest) (options : Options) :
    programNames g.mute options = programNames g options := by
  ext u
  unfold programNames
  rw [g.resolver_mute, g.plan_mute, topBlocks_mute]
  refine or_congr (by simp only [mem_map, exists_exists_and_eq_and]; exact Iff.rfl) ?_
  refine exists_congr fun sec => and_congr_right fun hsec => ?_
  rw [sectionNames_mute hg (ready_sections hg options sec hsec)]

theorem exists_code_mute (hg : g.Forest) {text : String} (hcode : code g options = .ok text) :
    ∃ text', code g.mute options = .ok text' := by
  have hallow := (exec_of_run hg (code_eq_ok hcode).1).1
  rw [← programNames_mute hg] at hallow
  rcases run_outcome hg.mute options with ⟨-, h⟩ | ⟨u, hu, hnot, -⟩ | ⟨n, hn, ⟨j, hj, -⟩, -⟩
  · unfold code
    rw [h]
    exact ⟨_, rfl⟩
  · exact absurd (hallow u hu) hnot
  · rw [get?_mute] at hn
    obtain ⟨m, -, rfl⟩ := Option.map_eq_some_iff.mp hn
    cases hj

end Generation

end NqcBlocks
