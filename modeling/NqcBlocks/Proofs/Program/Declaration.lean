import NqcBlocks.Proofs.Program.Failure

/-!
# Every variable is declared, and no other

The variables of a section are collected by one recursion over its blocks and written by another. This
module proves that the two agree. `Nqc.writtenBy` are the variables that occur in statements; those in
the statements that some blocks stand for are those that the blocks name and those of the loops that
need one (`mem_writtenBy_chainStmts`), which is what the scope of a section has (`mem_scopeOf_iff`).
-/

namespace NqcBlocks

open List Table

variable {n : Node} {operands : Operands} {t : BlockTree}

namespace Nqc

def Expr.written : Expr → List String
  | .literal _ _ => []
  | .variable name => [name]
  | .binary _ left right => left.written ++ right.written
  | .negate operand => operand.written
  | .group inner => inner.written

mutual
def Stmt.written : Stmt → List String
  | .comment _ => []
  | .call _ arguments => arguments.flatMap Expr.written
  | .assign name value => name :: value.written
  | .expression value => value.written
  | .start _ => []
  | .stop _ => []
  | .repeatTimes count body => count.written ++ writtenBy body
  | .forever body => writtenBy body
  | .doUntil body condition => writtenBy body ++ condition.written
  | .branches arms none => writtenByArms arms
  | .branches arms (some otherwise) => writtenByArms arms ++ writtenBy otherwise
def writtenBy : List Stmt → List String
  | [] => []
  | s :: rest => s.written ++ writtenBy rest
def writtenByArms : List (Expr × List Stmt) → List String
  | [] => []
  | (condition, body) :: rest => condition.written ++ writtenBy body ++ writtenByArms rest
end

theorem writtenBy_append (xs ys : List Stmt) : writtenBy (xs ++ ys) = writtenBy xs ++ writtenBy ys := by
  induction xs with
  | nil => rfl
  | cons x xs ih => rw [cons_append, writtenBy, writtenBy, ih, append_assoc]

theorem mem_writtenByArms {x : String} : ∀ {arms : List (Expr × List Stmt)},
    x ∈ writtenByArms arms ↔ ∃ arm ∈ arms, x ∈ arm.1.written ∨ x ∈ writtenBy arm.2
  | [] => by simp [writtenByArms]
  | (condition, body) :: rest => by
    rw [writtenByArms, mem_append, mem_append, mem_writtenByArms, exists_mem_cons_iff]

end Nqc

open Nqc

/-! ## What blocks write -/

section Node

variable {spec : BlockSpec} {σ : Spelling} {expr : String → Expr} {x : String}

theorem mem_written_valueExpr (hc : n.Conforms spec) (hval : n.isValue = true) :
    x ∈ (valueExpr σ n expr).written ↔ (∃ v ∈ n.variables, x = σ.name .variable v)
      ∨ ∃ slot ∈ n.valueSlots.names, x ∈ (expr slot).written := by
  have hknown := hc.known
  unfold Node.isValue at hval
  unfold valueExpr Node.variables Node.names
  cases hk : n.kind <;> rw [hk] at hknown hval <;>
    cases hknown <;> cases hval <;> rw [(hc.slotNames rfl).1] <;>
    simp [BlockKind.nameField?, Expr.written, Expr.atom, numberCode, Builtin.sensorValue]

theorem mem_written_conditional (hc : n.Conforms spec) (hk : n.kind = .conditional)
    (hshape : spec.shape = .branches) {counter : Bool} {body : String → List Stmt} :
    x ∈ writtenBy (nodeStmts σ n counter expr body) ↔ (∃ slot ∈ n.valueSlots.names, x ∈ (expr slot).written)
        ∨ ∃ slot ∈ n.statementSlots.names, x ∈ writtenBy (body slot) := by
  obtain ⟨count, hasElse, hvalues, hstatements, hlength, helse⟩ := hc.branchSlots hshape
  have harms : x ∈ writtenByArms (arms expr body (count + 1))
      ↔ (∃ slot ∈ (List.range (count + 1)).map ("IF" ++ Number.natText ·), x ∈ (expr slot).written)
        ∨ ∃ slot ∈ (List.range (count + 1)).map ("DO" ++ Number.natText ·), x ∈ writtenBy (body slot) := by
    rw [mem_writtenByArms]
    simp only [arms, mem_map, exists_exists_and_eq_and, and_or_left, exists_or]
  unfold nodeStmts
  rw [hk]
  dsimp only
  rw [hlength, helse, hvalues, hstatements]
  cases hasElse with
  | false => simp [writtenBy, Stmt.written, harms]
  | true => simp [writtenBy, Stmt.written, harms, or_assoc, or_and_right, exists_or]

theorem mem_written_nodeStmts (hc : n.Conforms spec) (hren : n.kind.isRenderable = true)
    {counter : Bool} (hcounter : counter = true → n.kind = .repeatTimes) {body : String → List Stmt} :
    x ∈ writtenBy (nodeStmts σ n counter expr body)
      ↔ (∃ v ∈ n.variables, x = σ.name .variable v) ∨ counter = true ∧ x = σ.bound n.handle
        ∨ (∃ slot ∈ n.valueSlots.names, x ∈ (expr slot).written)
        ∨ ∃ slot ∈ n.statementSlots.names, x ∈ writtenBy (body slot) := by
  have hknown := hc.known
  have hplain : n.kind ≠ .repeatTimes → counter = false := fun hne =>
    Bool.eq_false_iff.mpr fun h => hne (hcounter h)
  cases hk : n.kind <;> rw [hk] at hknown hren hplain <;> cases hknown <;> cases hren
  case conditional =>
    rw [mem_written_conditional hc hk rfl, hplain (by decide)]
    simp [Node.variables, Node.names, hk, BlockKind.nameField?]
  case repeatTimes =>
    rw [(hc.slotNames rfl).1, (hc.slotNames rfl).2]
    cases counter <;>
      simp [nodeStmts, hk, writtenBy, Stmt.written, Expr.written, Node.variables, Node.names,
        BlockKind.nameField?]
    by_cases hx : x = σ.bound n.handle <;> simp [hx]
  case touchValue | lightValue | rotationValue | temperatureValue | variableGet | number | percent
      | arithmetic | group | compare | logic | negate | boolean =>
    -- a value that stands where a statement is expected
    have hval : n.isValue = true := by
      unfold Node.isValue
      rw [hk]
      rfl
    rw [(hc.slotNames rfl).2, hplain (by decide)]
    simp [nodeStmts, hk, writtenBy, Stmt.written, mem_written_valueExpr hc hval, Builtin.sensorValue]
  case repeatUntil =>
    rw [(hc.slotNames rfl).1, (hc.slotNames rfl).2, hplain (by decide)]
    simp [nodeStmts, hk, writtenBy, Stmt.written, Node.variables, Node.names, BlockKind.nameField?,
      or_comm]
  all_goals
    rw [(hc.slotNames rfl).1, (hc.slotNames rfl).2, hplain (by decide)]
    simp [nodeStmts, hk, writtenBy, Stmt.written, Expr.written, Expr.atom, Node.variables, Node.names,
      BlockKind.nameField?, setPower, motorOn, constantCall, sensorSetup, Builtin.sensorSetup,
      Builtin.power]

end Node

def BlockTree.Writes (σ : Spelling) (p : BlockTree) (x : String) : Prop :=
  (∃ v ∈ p.node.variables, x = σ.name .variable v)
    ∨ p.needsCounter = true ∧ x = σ.bound p.node.handle

section Trees

variable {g : Graph} {σ : Spelling} {x : String}

theorem exists_parts_iff {P : BlockTree → Prop} (hen : n.enabled = true) {bodies : Bodies} :
    (∃ p ∈ (BlockTree.mk n true operands bodies).parts, P p) ↔ P (.mk n true operands bodies)
        ∨ (∃ p ∈ operandParts operands, P p) ∨ ∃ p ∈ bodyParts bodies, P p := by
  rw [BlockTree.parts, if_pos hen, exists_mem_cons_iff]
  simp only [mem_append, or_and_right, exists_or]

theorem exists_mem_slotExpr_iff (hnd : (names operands).Nodup)
    (h : ∀ {slot t}, (slot, some t) ∈ operands → t.node.enabled = true →
      (x ∈ (t.reading σ).expr.written ↔ ∃ p ∈ t.parts, p.Writes σ x)) :
    (∃ slot ∈ names operands, x ∈ (slotExpr n (readings σ operands) slot).written)
      ↔ ∃ p ∈ operandParts operands, p.Writes σ x := by
  have hslot : ∀ slot, x ∈ (slotExpr n (readings σ operands) slot).written
      ↔ ∃ t, get? slot operands = some (some t) ∧ t.node.enabled = true
        ∧ x ∈ (t.reading σ).expr.written := by
    intro slot
    unfold slotExpr
    rw [get?_readings]
    rcases get? slot operands with _ | _ | t
    · simp [Expr.written, Expr.atom]
    · simp [Expr.written, Expr.atom]
    · cases hen : t.node.enabled <;> simp [Expr.written, Expr.atom, Option.filter_some, hen]
  simp only [hslot, get?_eq_some_iff hnd]
  constructor
  · rintro ⟨slot, -, t, hmem, hen, hx⟩
    obtain ⟨p, hp, hw⟩ := (h hmem hen).mp hx
    exact ⟨p, mem_operandParts.mpr ⟨slot, t, hmem, hp⟩, hw⟩
  · rintro ⟨p, hp, hw⟩
    obtain ⟨slot, t, hmem, hp⟩ := mem_operandParts.mp hp
    have hen : t.node.enabled = true := by
      by_contra hne
      rw [BlockTree.parts_of_disabled hne] at hp
      cases hp
    exact ⟨slot, mem_map_of_mem hmem, t, hmem, hen, (h hmem hen).mpr ⟨p, hp, hw⟩⟩

theorem BlockTree.kind_of_needsCounter (h : t.needsCounter = true) : t.node.kind = .repeatTimes := by
  unfold needsCounter at h
  rw [Bool.and_eq_true, beq_iff_eq] at h
  exact h.1

theorem BlockTree.Sound.mem_written_reading (ht : t.Sound g) (hval : t.node.isValue = true) :
    t.node.enabled = true → (x ∈ (t.reading σ).expr.written ↔ ∃ p ∈ t.parts, p.Writes σ x) := by
  induction ht, hval using BlockTree.Sound.induct_value with
  | @value n spec operands hn hval ih =>
    intro hen
    have hplain : (BlockTree.mk n true operands []).needsCounter = false := by
      refine Bool.eq_false_iff.mpr fun h => ?_
      have hk : n.kind = .repeatTimes := BlockTree.kind_of_needsCounter h
      unfold Node.isValue at hval
      rw [hk] at hval
      cases hval
    rw [exists_parts_iff (n := n) hen, ← exists_mem_slotExpr_iff (n := n) hn.nodup_operands ih,
      BlockTree.reading, mem_written_valueExpr hn.conforms hval, hn.operandNames]
    simp [BlockTree.Writes, hplain, bodyParts, BlockTree.node]

theorem writtenBy_withComments (remarks : String) (statements : List Stmt) :
    writtenBy (withComments remarks statements) = writtenBy statements := by
  unfold withComments
  split <;> rfl

section Chains

variable {P : BlockTree → Prop} {Q : List Stmt → Prop}

theorem holds_chainStmts_iff (hnil : ¬ Q []) (happend : ∀ xs ys, Q (xs ++ ys) ↔ Q xs ∨ Q ys) :
    ∀ {chain : List BlockTree}, (∀ t ∈ chain, (Q (t.stmts σ) ↔ ∃ p ∈ t.parts, P p)) →
      (Q (chainStmts σ chain) ↔ ∃ p ∈ chainParts chain, P p)
  | [], _ => by simp [chainStmts, chainParts, hnil]
  | t :: rest, h => by
    rw [chainStmts, happend, chainParts, h t mem_cons_self,
      holds_chainStmts_iff hnil happend fun t ht => h t (mem_cons_of_mem _ ht)]
    simp only [mem_append, or_and_right, exists_or]

theorem exists_bodyStmts_iff {bodies : Bodies} (hnd : (names bodies).Nodup)
    (h : ∀ {slot chain}, (slot, chain) ∈ bodies → (Q (chainStmts σ chain) ↔ ∃ p ∈ chainParts chain, P p)) :
    (∃ slot ∈ names bodies, Q ((get? slot (bodyStmts σ bodies)).getD [])) ↔ ∃ p ∈ bodyParts bodies, P p := by
  simp only [getD_bodyStmts]
  constructor
  · rintro ⟨slot, hslot, hx⟩
    obtain ⟨⟨slot, chain⟩, hmem, rfl⟩ := mem_map.mp hslot
    rw [chainAt_of_mem hnd hmem] at hx
    obtain ⟨p, hp, hw⟩ := (h hmem).mp hx
    exact ⟨p, mem_bodyParts.mpr ⟨slot, chain, hmem, hp⟩, hw⟩
  · rintro ⟨p, hp, hw⟩
    obtain ⟨slot, chain, hmem, hp⟩ := mem_bodyParts.mp hp
    refine ⟨slot, mem_map_of_mem hmem, ?_⟩
    rw [chainAt_of_mem hnd hmem]
    exact (h hmem).mpr ⟨p, hp, hw⟩

end Chains

theorem mem_writtenBy_chainStmts {chain : List BlockTree}
    (h : ∀ t ∈ chain, (x ∈ writtenBy (t.stmts σ) ↔ ∃ p ∈ t.parts, p.Writes σ x)) :
    x ∈ writtenBy (chainStmts σ chain) ↔ ∃ p ∈ chainParts chain, p.Writes σ x :=
  holds_chainStmts_iff (Q := fun code => x ∈ writtenBy code) not_mem_nil
    (fun xs ys => by rw [writtenBy_append, mem_append]) h

theorem BlockTree.Sound.mem_written_stmts (ht : t.Sound g) (hren : t.node.kind.isRenderable = true) :
    x ∈ writtenBy (t.stmts σ) ↔ ∃ p ∈ t.parts, p.Writes σ x := by
  induction ht, hren using BlockTree.Sound.induct_code with
  | @code n spec operands bodies hn hren ih =>
    by_cases hen : n.enabled = true
    · have hslots := exists_mem_slotExpr_iff (n := n) (σ := σ) (x := x) hn.nodup_operands
        fun hmem hten => (hn.operand hmem).mem_written_reading (hn.isValue hmem) hten
      have hchains := exists_bodyStmts_iff (σ := σ) (Q := fun code => x ∈ writtenBy code)
        hn.nodup_bodies fun hmem => mem_writtenBy_chainStmts (ih hmem)
      rw [BlockTree.stmts, if_pos hen, writtenBy_withComments,
        mem_written_nodeStmts hn.conforms hren BlockTree.kind_of_needsCounter, ← hn.operandNames,
        ← hn.bodyNames, hslots, hchains, exists_parts_iff (n := n) hen, BlockTree.Writes, or_assoc]
      rfl
    · rw [BlockTree.stmts, if_neg hen, BlockTree.parts_of_disabled (t := .mk n true operands bodies) hen]
      simp [writtenBy]

end Trees

/-! ## Sections -/

theorem Catalog.isComputed_builtin_iff : Catalog.builtin.isComputed n = true
    ↔ n.enabled = true ∧ n.kind ≠ .number ∧ n.kind ≠ .percent ∧ n.kind ≠ .variableGet := by
  unfold isComputed
  rw [Bool.and_eq_true, Bool.not_eq_true', Catalog.spec?_builtin]
  refine and_congr_right fun _ => ?_
  cases n.kind <;> simp [Builtin.spec?, Builtin.sensorSetup, Builtin.sensorValue]

namespace Graph

variable {g : Graph}

/-- **A loop whose count is computed**: an enabled value is plugged in for the count, and it is neither a
number nor a variable. -/
def HasComputedCount (g : Graph) (n : Node) : Prop :=
  n.kind = .repeatTimes ∧ ∃ h m, n.Holds "TIMES" h ∧ g.get? h = some m ∧ m.enabled = true
    ∧ m.kind ≠ .number ∧ m.kind ≠ .percent ∧ m.kind ≠ .variableGet

theorem Forest.needsCounter_tree (hg : g.Forest) (hn : g.get? n.handle = some n) :
    (g.tree n).needsCounter = true ↔ g.HasComputedCount n := by
  obtain ⟨-, spec, hc⟩ := hg.sound hn
  unfold BlockTree.needsCounter HasComputedCount
  rw [hg.tree_eq hn, Bool.and_eq_true, beq_iff_eq]
  refine and_congr_right fun hk => ?_
  have hknown := hc.known
  rw [show n.kind = .repeatTimes from hk] at hknown
  cases hknown
  obtain ⟨s, hs⟩ := exists_get?_of_mem_names
    ((hc.slotNames rfl).1 ▸ mem_singleton.mpr rfl : "TIMES" ∈ n.valueSlots.names)
  have hat : n.at? "TIMES" = s.target := at?_of_mem_valueSlots hc (mem_of_get? hs)
  simp only [BlockTree.operands, get?_mapValues (fun _ (s : ValueSlot) => (g.follow? s.target).map g.tree), hs,
    Option.map_some, Node.holds_iff hc, hat]
  cases s.target with
  | none => simp [follow?]
  | some h =>
    cases hm : g.get? h with
    | none => simp [follow?, hm]
    | some m => simp [follow?, hm, hg.node_tree hm, Catalog.isComputed_builtin_iff]

end Graph

namespace Generation

open Graph

variable {g : Graph}

variable {key : ScopeKey} {heads : List Handle} {y : Name} {policy : ReservedPolicy} {v : String}

theorem mem_scopeOf_iff (hg : g.Forest) {r : Resolver}
    (hheads : Heads g heads) :
    y ∈ (scopeOf g r key heads).names
      ↔ ∃ x ∈ writtenBy (chainStmts (spellingOf g r key heads) (treesOf g heads)), y = .text x := by
  have hwritten : ∀ x, x ∈ writtenBy (chainStmts (spellingOf g r key heads) (treesOf g heads))
      ↔ ∃ p ∈ chainParts (treesOf g heads), p.Writes (spellingOf g r key heads) x := fun x =>
    mem_writtenBy_chainStmts fun t ht =>
      (hheads.trees hg t ht).1.mem_written_stmts (hheads.trees hg t ht).2
  have hserve : (scopeOf g r key heads).Serves r (chainParts (treesOf g heads)) := serves_sectionScope _ _ _
  simp only [hwritten]
  refine mem_sectionScope.trans ?_
  constructor
  · rintro (⟨v, hv, rfl⟩ | ⟨loop, hloop, name, hname, rfl⟩)
    · obtain ⟨p, hp, hv⟩ := mem_flatMap.mp hv
      exact ⟨_, ⟨p, hp, .inl ⟨v, hv, rfl⟩⟩, rfl⟩
    · obtain ⟨p, hp, rfl⟩ := mem_map.mp hloop
      obtain ⟨hp, hneeds⟩ := mem_filter.mp hp
      refine ⟨name, ⟨p, hp, .inr ⟨hneeds, ?_⟩⟩, rfl⟩
      exact (congrArg (Option.getD · "") hname).symm
  · rintro ⟨x, ⟨p, hp, ⟨v, hv, rfl⟩ | ⟨hneeds, rfl⟩⟩, rfl⟩
    · exact .inl ⟨v, mem_flatMap.mpr ⟨p, hp, hv⟩, rfl⟩
    · have hloop : p.node ∈ loopsOf (chainParts (treesOf g heads)) := mem_map_of_mem (mem_filter.mpr ⟨hp, hneeds⟩)
      obtain ⟨name, hname⟩ := hserve.loops p.node hloop
      exact .inr ⟨p.node, hloop, name, hname, congrArg (fun o => Name.text (Option.getD o "")) hname⟩

/-- **A block makes its section declare a name**: it sets or gets a variable whose name is resolved to
that, or it is a loop whose count is computed and has that variable in the scope. -/
def Declares (g : Graph) (r : Resolver) (s : Scope) (n : Node) (x : String) : Prop :=
  (n.kind = .variableSet ∨ n.kind = .variableGet)
      ∧ (∃ r', r.resolve .variable (n.text "VAR") = .ok (x, r'))
    ∨ g.HasComputedCount n ∧ s.auxiliaryName? n.handle = some x ∧ ∃ k, x = Scope.boundName k

theorem resolve_eq_ok_iff {use : NameUse}
    (h : policy.Allows ⟨v, use⟩) {x : String} :
    (∃ r', (g.resolver policy).resolve use v = .ok (x, r')) ↔ x = (g.resolver policy).spell use v := by
  have hresolve := (Resolver.Sound.refl (r := g.resolver policy) rfl).resolve use v
  have hallowed : ¬ (use.forbids v = true ∧ (g.resolver policy).policy = .reject) :=
    fun hnot => Gen.not_allows_iff.mpr hnot h
  rw [if_neg hallowed] at hresolve
  obtain ⟨r', -, hr'⟩ := hresolve
  rw [hr']
  simp [eq_comm]

theorem mem_variables_iff : v ∈ n.variables
    ↔ (n.kind = .variableSet ∨ n.kind = .variableGet) ∧ v = n.text "VAR" := by
  unfold Node.variables Node.names
  cases n.kind <;> simp [BlockKind.nameField?]

theorem mem_scopeOf_iff_declares (hg : g.Forest)
    (hheads : Heads g heads)
    (hallow : ∀ u ∈ namesOf (chainParts (treesOf g heads)), policy.Allows u) :
    y ∈ (scopeOf g (g.resolver policy) key heads).names
      ↔ ∃ n, (∃ h ∈ heads, Relation.ReflTransGen g.Follows h n.handle)
        ∧ g.get? n.handle = some n ∧ n.enabled = true
        ∧ ∃ x, Declares g (g.resolver policy) (scopeOf g (g.resolver policy) key heads) n x
          ∧ y = .text x := by
  have hresolve : ∀ {p v}, p ∈ chainParts (treesOf g heads) → v ∈ p.node.variables →
      ∀ {x}, (∃ r', (g.resolver policy).resolve .variable v = .ok (x, r'))
        ↔ x = (g.resolver policy).spell .variable v := fun hp hv =>
    resolve_eq_ok_iff (hallow _ (variableNames_union _ ▸ .inl ⟨_, mem_flatMap.mpr ⟨_, hp, hv⟩, rfl⟩))
  refine mem_sectionScope.trans ?_
  constructor
  · rintro (⟨v, hv, rfl⟩ | ⟨loop, hloop, name, hname, rfl⟩)
    · obtain ⟨p, hp, hv⟩ := mem_flatMap.mp hv
      obtain ⟨h, hh, n, hx, hn, hen, rfl⟩ := (mem_parts_treesOf hg hheads).mp hp
      have hspell := (hresolve hp hv).mpr rfl
      rw [hg.node_tree hn] at hv
      obtain ⟨hk, rfl⟩ := mem_variables_iff.mp hv
      exact ⟨n, ⟨h, hh, hx⟩, hn, hen, _, .inl ⟨hk, hspell⟩, rfl⟩
    · obtain ⟨p, hp, rfl⟩ := mem_map.mp hloop
      obtain ⟨hp, hneeds⟩ := mem_filter.mp hp
      obtain ⟨h, hh, n, hx, hn, hen, rfl⟩ := (mem_parts_treesOf hg hheads).mp hp
      rw [hg.node_tree hn] at hname
      exact ⟨n, ⟨h, hh, hx⟩, hn, hen, name, .inr ⟨(hg.needsCounter_tree hn).mp hneeds, hname,
        boundName_of_sectionScope hname⟩, rfl⟩
  · rintro ⟨n, ⟨h, hh, hx⟩, hn, hen, x, hx', rfl⟩
    have hp := (mem_parts_treesOf hg hheads).mpr ⟨h, hh, n, hx, hn, hen, rfl⟩
    rcases hx' with ⟨hk, hx'⟩ | ⟨hcount, hname, -⟩
    · have hv : n.text "VAR" ∈ (g.tree n).node.variables := by
        rw [hg.node_tree hn]
        exact mem_variables_iff.mpr ⟨hk, rfl⟩
      rw [(hresolve hp hv).mp hx']
      exact .inl ⟨_, mem_flatMap.mpr ⟨_, hp, hv⟩, rfl⟩
    · refine .inr ⟨(g.tree n).node, mem_map_of_mem (mem_filter.mpr
        ⟨hp, (hg.needsCounter_tree hn).mpr hcount⟩), x, ?_, rfl⟩
      rw [hg.node_tree hn]
      exact hname

end Generation

def Section.isPreamble : Section → Bool
  | .preamble _ => true
  | _ => false

/-- **Where the code of a section starts**: with the loose blocks, or with the first statement of the
task. -/
inductive Section.Starts (g : Graph) : Section → Handle → Prop
  | global {loose : List Handle} {h : Handle} : h ∈ loose → Starts g (.global loose) h
  | task {root : Handle} {n : Node} {h : Handle} :
      g.get? root = some n → n.Holds "STATEMENTS" h → Starts g (.task root) h
  | main {loose : List Handle} {h : Handle} : h ∈ loose → Starts g (.main loose) h

def Graph.RenderedIn (g : Graph) (sec : Section) (n : Node) : Prop :=
  g.get? n.handle = some n ∧ n.enabled = true
    ∧ ∃ start, sec.Starts g start ∧ Relation.ReflTransGen g.Follows start n.handle

def Section.IsHeader (options : Options) (s : Scope) (report : CodeReport) : Section → Prop
  | .preamble _ => False
  | .global _ => report.message = "Generating global section."
      ∧ report.newCode = someText (s.declarations "")
  | .task root => report.node = some root ∧ ∃ title,
      report.newCode = some (title ++ "()\n\x7b\n" ++ s.declarations options.indent)
  | .main _ => report.node = none
      ∧ report.newCode = some ("task main()\n\x7b\n" ++ s.declarations options.indent)

namespace Generation

open Graph

variable {g : Graph} {r : Resolver} {options : Options}

theorem sectionReports_subset : ∀ {ss : List Section} {sec : Section}, sec ∈ ss →
    sectionReports g r options sec ⊆ sectionsReports g r options ss
  | [_], sec, h => by
    rw [mem_singleton.mp h]
    exact List.Subset.refl _
  | sec' :: sec'' :: rest, sec, h => by
    rw [sectionsReports]
    rcases mem_cons.mp h with rfl | h
    · exact subset_append_left _ _
    · exact fun report hreport => mem_append_right _ (mem_cons_of_mem _ (sectionReports_subset h hreport))
    · exact cons_ne_nil _ _

/-- **The records of a section that can be written**: none of the preamble, and else one, which is about
the chains that start where the section starts. These are the loose ones or at most one. -/
theorem sectionRecords_of_ready (hg : g.Forest) (options : Options) {sec : Section} (hsec : Ready g sec) :
    (sectionRecords g r sec).map (·.part) = (if sec.isPreamble then [] else [sec])
    ∧ ∀ record ∈ sectionRecords g r sec, ∃ key heads, record = recordOf g r sec key heads
      ∧ Heads g heads ∧ (∀ h, h ∈ heads ↔ sec.Starts g h)
      ∧ (heads.length ≤ 1 ∨ sec = .global heads ∨ sec = .main heads)
      ∧ namesOf (chainParts (treesOf g heads)) ⊆ sectionNames g sec
      ∧ ∃ report ∈ sectionReports g r options sec, sec.IsHeader options (scopeOf g r key heads) report := by
  cases hsec with
  | preamble text => exact ⟨rfl, fun record h => by cases h⟩
  | @global loose hheads =>
    refine ⟨rfl, fun record hrecord => ⟨.global, loose, mem_singleton.mp hrecord, hheads,
      fun h => ⟨.global, fun hstart => by cases hstart; assumption⟩, .inr (.inl rfl), subset_rfl,
      globalHeader g r loose, mem_cons_self, rfl, rfl⟩⟩
  | @task n hn hk =>
    have hrecords : sectionRecords g r (.task n.handle)
        = [recordOf g r (.task n.handle) (taskOf r n).key (taskOf r n).heads] := by
      rw [sectionRecords, hn]
      rfl
    have hreports : sectionReports g r options (.task n.handle) = taskReports g r options (taskOf r n) := by
      rw [sectionReports, hn]
      rfl
    rw [hrecords, hreports]
    refine ⟨rfl, fun record hrecord => ⟨_, _, mem_singleton.mp hrecord,
      heads_task hg hn (hk.imp id (·.1)), fun h => (mem_heads_iff hg hn).trans ?_,
      .inl (Option.length_toList_le), fun u hu => ?_,
      taskHeader g r options (taskOf r n), mem_cons_self, rfl, _, rfl⟩⟩
    · refine ⟨.task hn, fun hstart => ?_⟩
      cases hstart with
      | task hm hholds =>
        rw [hn] at hm
        cases hm
        exact hholds
    · exact ⟨n, hn, .inr hu⟩
  | @main loose hheads =>
    refine ⟨rfl, fun record hrecord => ⟨.main, loose, mem_singleton.mp hrecord, hheads,
      fun h => ⟨.main, fun hstart => by cases hstart; assumption⟩, .inr (.inr rfl), subset_rfl,
      taskHeader g r options (looseHead loose), mem_cons_self, rfl, rfl⟩⟩

theorem parts_of_records (hg : g.Forest) : ∀ {ss : List Section}, (∀ sec ∈ ss, Ready g sec) →
    (ss.flatMap (sectionRecords g r)).map (·.part) = ss.filter (!·.isPreamble)
  | [], _ => rfl
  | sec :: rest, h => by
    rw [flatMap_cons, map_append, (sectionRecords_of_ready hg {} (h sec mem_cons_self)).1,
      parts_of_records hg fun x hx => h x (mem_cons_of_mem _ hx), filter_cons]
    cases sec.isPreamble <;> rfl

/-- **A program declares what it writes.** Whenever a program can be generated, each of its sections
declares every name once. The names that it declares in its header are those that its scope has when it
is closed; they are the variables that occur in its code; and they are the variables that blocks rendered
in it set or get, and those of the loops rendered in it whose count is computed. -/
theorem declared_iff_written (hg : g.Reachable) (options : Options)
    (hrun : (run g options).2 = none) :
    ∃ p records c, Gen.exec (recordProgram g) (.start options) = (.ok (p, records), c)
      ∧ c.reports = (run g options).1
      ∧ records.map (·.part) = (sections options p).filter (!·.isPreamble)
      ∧ ∀ record ∈ records, ∃ s s', record.opened = some s ∧ record.closed = some s'
        ∧ (∃ report ∈ (run g options).1, record.part.IsHeader options s report)
        ∧ s'.names = s.names ∧ s.names.Nodup
        ∧ (∀ y, y ∈ s.names ↔ ∃ x ∈ writtenBy record.code, y = .text x)
        ∧ ∀ y, y ∈ s.names ↔ ∃ n, g.RenderedIn record.part n
          ∧ ∃ x, Declares g (g.resolver options.policy) s n x ∧ y = .text x := by
  have hforest := hg.forest
  obtain ⟨hallow, hreports, c, hexec, hctx⟩ := exec_of_run hforest hrun
  have hready := ready_sections (r := g.resolver options.policy) hforest options
  rw [hreports]
  refine ⟨_, _, c, hexec, hctx, parts_of_records hforest hready, fun record hrecord => ?_⟩
  obtain ⟨sec, hsec, hrecord⟩ := List.mem_flatMap.mp hrecord
  obtain ⟨key, heads, rfl, hheads, hstarts, -, hnames, report, hreport, hheader⟩ :=
    (sectionRecords_of_ready hforest options (hready sec hsec)).2 record hrecord
  refine ⟨_, _, rfl, rfl, ⟨report, ?_, hheader⟩, rfl, nodup_sectionScope _ _ _,
    fun y => mem_scopeOf_iff hforest hheads, fun y => ?_⟩
  · exact List.mem_append_left _ (List.mem_append_right _ (sectionReports_subset hsec hreport))
  · refine (mem_scopeOf_iff_declares hforest hheads fun u hu =>
      hallow u (.inr ⟨sec, hsec, hnames hu⟩)).trans (exists_congr fun n => ?_)
    unfold RenderedIn
    simp only [hstarts]
    constructor
    · rintro ⟨hx, hn, hen, hdeclares⟩
      exact ⟨⟨hn, hen, hx⟩, hdeclares⟩
    · rintro ⟨⟨hn, hen, hx⟩, hdeclares⟩
      exact ⟨hx, hn, hen, hdeclares⟩

def countedTask : { g : Graph // g.Reachable ∧ (run g {}).2 = none } :=
  ⟨(Editor.run {} [.create "main_task" {}, .create "variable_set" {},
      .connectStatement 1 "STATEMENTS" 2, .create "repeat_times" {}, .connectNext 2 3,
      .create "arithmetic" {}, .connectValue 3 "TIMES" 4, .create "variable_get" {},
      .connectValue 4 "A" 5]).graph,
    reachable_run .empty _, Option.isNone_iff_eq_none.mp (by decide +kernel)⟩

/-- A task that sets `x` and repeats something `x + 0` times declares `x` and a variable for the count. -/
theorem declared_iff_written_counted :
    let g := (Editor.run {} [.create "main_task" {}, .create "variable_set" {},
      .connectStatement 1 "STATEMENTS" 2, .create "repeat_times" {}, .connectNext 2 3,
      .create "arithmetic" {}, .connectValue 3 "TIMES" 4, .create "variable_get" {},
      .connectValue 4 "A" 5]).graph
    g.Reachable ∧ (run g {}).2 = none
      ∧ ∃ p record c, Gen.exec (recordProgram g) (.start {}) = (.ok (p, [record]), c)
        ∧ ∃ s, record.opened = some s ∧ s.declarations "" = "int x;\nint repeat_bound_1;\n\n"
          ∧ ∀ y, y ∈ s.names ↔ ∃ x ∈ writtenBy record.code, y = .text x := by
  intro g
  obtain ⟨hreach, hrun⟩ : g.Reachable ∧ (run g {}).2 = none := countedTask.2
  refine ⟨hreach, hrun, ?_⟩
  obtain ⟨p, records, c, hexec, -, -, h⟩ := declared_iff_written hreach {} hrun
  have hopened : (Gen.exec (recordProgram g) (.start {})).1.toOption.map
      (fun x => x.2.map fun record => record.opened.map (·.declarations ""))
        = some [some "int x;\nint repeat_bound_1;\n\n"] := by decide +kernel
  rw [hexec] at hopened
  obtain ⟨record, rfl, htext⟩ := List.map_eq_singleton_iff.mp (Option.some.inj hopened)
  obtain ⟨s, s', hs, -, -, -, -, hwritten, -⟩ := h record (List.mem_singleton.mpr rfl)
  rw [hs] at htext
  exact ⟨p, record, c, hexec, s, hs, Option.some.inj htext, hwritten⟩

end Generation

end NqcBlocks
