import NqcBlocks.Proofs.Program.SectionLines

/-!
# Which blocks have lines

The code of an enabled statement starts with a line of its own, and so does that of a value on its own; a
value that is plugged in is written on the line of the statement. `BlockTree.owners` lists the blocks of a
tree whose code starts a line, in the order of these lines (`BlockTree.Sound.owners_lines`).
-/

namespace NqcBlocks

open List

variable {n : Node} {h : Handle} {p : BlockTree}

mutual
def BlockTree.owners : BlockTree → List BlockTree
  | .mk n attached operands bodies =>
    if n.enabled then .mk n attached operands bodies :: bodyOwners bodies else []
def bodyOwners : Bodies → List BlockTree
  | [] => []
  | (_, chain) :: rest => chainOwners chain ++ bodyOwners rest
def chainOwners : List BlockTree → List BlockTree
  | [] => []
  | t :: rest => t.owners ++ chainOwners rest
end

theorem bodyOwners_eq_flatMap (bodies : Bodies) :
    bodyOwners bodies = bodies.flatMap fun e => chainOwners e.2 := by
  induction bodies with
  | nil => rfl
  | cons e rest ih =>
    obtain ⟨slot, chain⟩ := e
    rw [bodyOwners, ih, flatMap_cons]

theorem chainOwners_append : ∀ chain chain' : List BlockTree,
    chainOwners (chain ++ chain') = chainOwners chain ++ chainOwners chain'
  | [], _ => rfl
  | t :: rest, chain' => by
    rw [cons_append, chainOwners, chainOwners, chainOwners_append rest, append_assoc]

/-! ## The owners of lines -/

def ownersOf (ls : List Line) : List BlockTree := ls.filterMap Line.owner

@[simp] theorem ownersOf_append (ls ls' : List Line) :
    ownersOf (ls ++ ls') = ownersOf ls ++ ownersOf ls' := filterMap_append

@[simp] theorem ownersOf_inner (ls : List Line) : ownersOf (ls.map Line.inner) = ownersOf ls := by
  unfold ownersOf
  rw [filterMap_map]
  rfl

@[simp] theorem ownersOf_code (code : String) (ls : List Line) :
    ownersOf ({ code } :: ls) = ownersOf ls := rfl

theorem ownersOf_loopLines (head tail : String) (body : List Line) :
    ownersOf (loopLines head body tail) = ownersOf body := by
  rw [loopLines, ownersOf_code, ownersOf_append, ownersOf_inner]
  exact append_nil _

theorem ownersOf_branchLines (otherwise : Option (List Line)) :
    ∀ (arms : List (Nqc.Expr × List Line)) (row word : String), ownersOf (branchLines otherwise row word arms)
        = arms.flatMap (fun arm => ownersOf arm.2) ++ ownersOf (otherwise.getD [])
  | [], row, word => by
    cases otherwise with
    | none => rfl
    | some body => exact ownersOf_loopLines _ _ body
  | (condition, body) :: rest, row, word => by
    rw [branchLines, ownersOf_code, ownersOf_append, ownersOf_inner,
      ownersOf_branchLines otherwise rest, flatMap_cons, append_assoc]

section Trees

variable {g : Graph} {σ : Spelling}

theorem ownersOf_nodeLines {spec : BlockSpec} (hc : n.Conforms spec)
    (hren : n.kind.isRenderable = true) (σ : Spelling) (counter : Bool) (expr : String → Nqc.Expr)
    (body : String → List Line) : ownersOf (nodeLines σ n counter expr body)
      = n.statementSlots.names.flatMap fun slot => ownersOf (body slot) := by
  have hknown := hc.known
  cases hbody : n.kind.hasBody with
  | false =>
    have hslots : n.statementSlots.names = [] := by
      cases hk : n.kind <;> rw [hk] at hknown hren hbody <;> cases hknown <;> cases hbody <;>
        cases hren <;> exact (hc.slotNames rfl).2
    rw [nodeLines_of_hasBody hbody, hslots, flatMap_nil, ownersOf, filterMap_map]
    exact filterMap_eq_nil_iff.mpr fun _ _ => rfl
  | true =>
    unfold nodeLines
    cases hk : n.kind <;> rw [hk] at hknown hbody <;>
      simp only [BlockKind.hasBody, reduceCtorEq] at hbody
    case repeatTimes =>
      cases hknown
      rw [(hc.slotNames rfl).2, flatMap_singleton]
      cases counter with
      | false => exact ownersOf_loopLines _ _ _
      | true => exact (ownersOf_code _ _).trans (ownersOf_loopLines _ _ _)
    case repeatForever | repeatUntil =>
      cases hknown
      rw [(hc.slotNames rfl).2, flatMap_singleton]
      exact ownersOf_loopLines _ _ _
    case conditional =>
      cases hknown
      obtain ⟨count, hasElse, -, hstatements, hlength, helse⟩ := hc.branchSlots rfl
      dsimp only
      rw [hlength, helse, hstatements, ownersOf_branchLines, flatMap_append, flatMap_map, flatMap_map]
      cases hasElse with
      | false => rfl
      | true => exact congrArg _ (flatMap_singleton _ _).symm

theorem ownersOf_chainLines : ∀ {chain : List BlockTree},
    (∀ t ∈ chain, ownersOf (t.lines σ) = t.owners) → ownersOf (chainLines σ chain) = chainOwners chain
  | [], _ => rfl
  | t :: rest, h => by
    rw [chainLines, chainOwners, ownersOf_append, h t mem_cons_self,
      ownersOf_chainLines fun t ht => h t (mem_cons_of_mem _ ht)]

theorem BlockTree.Sound.owners_lines (σ : Spelling) {t : BlockTree} (ht : t.Sound g)
    (hren : t.node.kind.isRenderable = true) : ownersOf (t.lines σ) = t.owners := by
  induction ht, hren using BlockTree.Sound.induct_code with
  | @code n spec operands bodies hn hren ih =>
    have hbodies : n.statementSlots.names.flatMap (fun slot =>
        ownersOf ((Table.get? slot (bodyLines σ bodies)).getD [])) = bodyOwners bodies := by
      rw [bodyOwners_eq_flatMap, ← hn.bodyNames]
      unfold Table.names
      rw [flatMap_map]
      refine flatMap_congr fun e he => ?_
      rw [getD_bodyLines, chainAt_of_mem hn.nodup_bodies he]
      exact ownersOf_chainLines fun t ht => ih he t ht
    obtain ⟨code, rest, hlines⟩ := exists_nodeLines hren σ
      (BlockTree.mk n true operands bodies).needsCounter (slotExpr n (readings σ operands))
      fun slot => (Table.get? slot (bodyLines σ bodies)).getD []
    have hnode := ownersOf_nodeLines hn.conforms hren σ
      (BlockTree.mk n true operands bodies).needsCounter (slotExpr n (readings σ operands))
      fun slot => (Table.get? slot (bodyLines σ bodies)).getD []
    rw [hbodies, hlines, ownersOf_code] at hnode
    rw [BlockTree.lines, BlockTree.owners, hlines]
    split
    · rw [← hnode]
      rfl
    · rfl

/-! ## Owners among all blocks -/

mutual
theorem BlockTree.owners_sublist : ∀ t : BlockTree, t.owners.Sublist t.parts
  | .mk n attached operands bodies => by
    rw [BlockTree.owners, BlockTree.parts]
    split
    · exact (sublist_append_of_sublist_right (bodyOwners_sublist bodies)).cons_cons _
    · exact List.Sublist.refl _
theorem bodyOwners_sublist : ∀ bodies : Bodies, (bodyOwners bodies).Sublist (bodyParts bodies)
  | [] => List.Sublist.refl _
  | (_, chain) :: rest => by
    rw [bodyOwners, bodyParts]
    exact (chainOwners_sublist chain).append (bodyOwners_sublist rest)
theorem chainOwners_sublist : ∀ chain : List BlockTree, (chainOwners chain).Sublist (chainParts chain)
  | [] => List.Sublist.refl _
  | t :: rest => by
    rw [chainOwners, chainParts]
    exact t.owners_sublist.append (chainOwners_sublist rest)
end

theorem mem_chainOwners : ∀ {chain : List BlockTree}, p ∈ chainOwners chain ↔ ∃ t ∈ chain, p ∈ t.owners
  | [] => by simp [chainOwners]
  | t :: rest => by
    rw [chainOwners, mem_append, mem_chainOwners]
    simp

theorem BlockTree.Sound.mem_owners_iff {t : BlockTree} (ht : t.Sound g) :
    p ∈ t.owners ↔ p ∈ t.parts ∧ (p = t ∨ p.node.isStatement = true) := by
  induction ht with
  | block hn _ ihbody =>
    refine ⟨fun h => ⟨(BlockTree.owners_sublist _).subset h, ?_⟩, ?_⟩
    · rw [BlockTree.owners] at h
      split at h
      · rcases mem_cons.mp h with rfl | h
        · exact .inl rfl
        · rw [bodyOwners_eq_flatMap] at h
          obtain ⟨e, he, h⟩ := mem_flatMap.mp h
          obtain ⟨t, ht, h⟩ := mem_chainOwners.mp h
          refine .inr ?_
          rcases ((ihbody he t ht).mp h).2 with rfl | h
          · exact hn.statements he _ ht
          · exact h
      · cases h
    · rintro ⟨hp, hroot⟩
      obtain ⟨hen, hp⟩ := mem_parts_iff.mp hp
      rw [BlockTree.owners, if_pos hen, mem_cons]
      rcases hp with rfl | hp | hp
      · exact .inl rfl
      · -- what is in a socket for values is a value, with everything plugged into it
        obtain ⟨slot, t, hmem, hp⟩ := mem_operandParts.mp hp
        have hvalue := (hn.operand hmem).isValue_of_mem_parts (hn.isValue hmem) p hp
        exact hroot.imp_right fun hstatement => absurd hstatement (Node.not_isStatement_of_isValue hvalue)
      · obtain ⟨slot, chain, hmem, hp⟩ := mem_bodyParts.mp hp
        obtain ⟨t, ht, hp⟩ := mem_chainParts.mp hp
        refine hroot.imp_right fun hstatement => ?_
        rw [bodyOwners_eq_flatMap]
        exact mem_flatMap.mpr ⟨_, hmem, mem_chainOwners.mpr ⟨t, ht, (ihbody hmem t ht).mpr ⟨hp, .inr hstatement⟩⟩⟩

theorem Graph.Forest.mem_chainOwners_iff (hg : g.Forest) (hn : g.get? h = some n) : p ∈ chainOwners (g.trees (some h))
      ↔ p ∈ chainParts (g.trees (some h)) ∧ (p = g.tree n ∨ p.node.isStatement = true) := by
  have hsound := hg.sound_trees hn
  rw [hg.trees_eq hn] at hsound ⊢
  rw [mem_chainOwners, mem_chainParts]
  constructor
  · rintro ⟨t, ht, hp⟩
    obtain ⟨hparts, hroot⟩ := (hsound t ht).mem_owners_iff.mp hp
    refine ⟨⟨t, ht, hparts⟩, ?_⟩
    rcases hroot with rfl | hstatement
    · rcases mem_cons.mp ht with ht | ht
      · exact .inl ht
      · exact .inr ((hg.sound_trees_aux hn).2 _ ht).2
    · exact .inr hstatement
  · rintro ⟨⟨t, ht, hp⟩, rfl | hstatement⟩
    · -- the first block is the root of the first tree
      refine ⟨_, mem_cons_self, (hsound _ mem_cons_self).mem_owners_iff.mpr ⟨?_, .inl rfl⟩⟩
      have hen := (enabled_of_mem_parts (hsound t ht) hp).1
      rw [hg.node_tree hn] at hen
      rw [hg.tree_eq hn]
      exact mem_parts_iff.mpr ⟨hen, .inl rfl⟩
    · exact ⟨t, ht, (hsound t ht).mem_owners_iff.mpr ⟨hp, .inr hstatement⟩⟩

end Trees

/-! ## Every block once -/

def chainVoices (chain : List BlockTree) : List Node := (chainOwners chain).flatMap BlockTree.voices

mutual
theorem BlockTree.voices_sublist : ∀ t : BlockTree, t.voices.Sublist t.nodes
  | .mk n _ operands _ =>
    ((operandVoices_sublist operands).trans (sublist_append_left _ _)).cons_cons n
theorem operandVoices_sublist : ∀ operands : Operands,
    (operandVoices operands).Sublist (operandNodes operands)
  | [] => nil_sublist _
  | (_, none) :: rest => operandVoices_sublist rest
  | (_, some t) :: rest => t.voices_sublist.append (operandVoices_sublist rest)
end

mutual
theorem BlockTree.ownerVoices_sublist : ∀ t : BlockTree, (t.owners.flatMap BlockTree.voices).Sublist t.nodes
  | .mk n attached operands bodies => by
    rw [BlockTree.owners]
    split
    · rw [flatMap_cons]
      exact ((operandVoices_sublist operands).append (bodyVoices_sublist bodies)).cons_cons n
    · exact nil_sublist _
theorem bodyVoices_sublist : ∀ bodies : Bodies,
    ((bodyOwners bodies).flatMap BlockTree.voices).Sublist (bodyNodes bodies)
  | [] => nil_sublist _
  | (_, chain) :: rest => by
    rw [bodyOwners, flatMap_append]
    exact (chainVoices_sublist chain).append (bodyVoices_sublist rest)
theorem chainVoices_sublist : ∀ chain : List BlockTree, (chainVoices chain).Sublist (chainNodes chain)
  | [] => nil_sublist _
  | t :: rest => by
    rw [chainVoices, chainOwners, flatMap_append]
    exact t.ownerVoices_sublist.append (chainVoices_sublist rest)
end

namespace Graph

variable {g : Graph}

namespace Forest

theorem chainVoices_sublist_subtree (hg : g.Forest) (hn : g.get? h = some n) :
    (chainVoices (g.trees (some h))).Sublist (g.subtree n) := by
  rw [← hg.chainNodes_trees hn]
  exact chainVoices_sublist _

theorem nodup_flatMap_below (hg : g.Forest) {f : Handle → List Node}
    (hf : ∀ {h n}, g.get? h = some n → (f h).Sublist (g.subtree n)) {roots : List Handle} (hnodup : roots.Nodup)
    (htop : ∀ h ∈ roots, ∃ n, g.get? h = some n ∧ n.parent = none) :
    ((roots.flatMap f).map (·.handle)).Nodup := by
  rw [map_flatMap, nodup_flatMap]
  refine ⟨fun h hh => ?_, hnodup.imp_of_mem fun {h h'} hh hh' hne x hx hx' => hne ?_⟩
  · obtain ⟨n, hn, -⟩ := htop h hh
    exact (hg.nodup_subtree hn).sublist ((hf hn).map (·.handle))
  · obtain ⟨n, hn, hparent⟩ := htop h hh
    obtain ⟨n', hn', hparent'⟩ := htop h' hh'
    obtain ⟨m, hm, rfl⟩ := mem_map.mp hx
    obtain ⟨m', hm', heq⟩ := mem_map.mp hx'
    have hw := ((hg.mem_subtree_iff hn).mp ((hf hn).subset hm)).2
    have hw' := heq ▸ ((hg.mem_subtree_iff hn').mp ((hf hn').subset hm')).2
    exact hw.eq_of_tops hw' (by rw [parent?_of_get? hn, hparent]) (by rw [parent?_of_get? hn', hparent'])

theorem nodup_chainVoices (hg : g.Forest) {roots : List Handle} (hnodup : roots.Nodup)
    (htop : ∀ h ∈ roots, ∃ n, g.get? h = some n ∧ n.parent = none) :
    ((roots.flatMap fun h => chainVoices (g.trees (some h))).map (·.handle)).Nodup :=
  hg.nodup_flatMap_below hg.chainVoices_sublist_subtree hnodup htop

end Forest

end Graph

end NqcBlocks
