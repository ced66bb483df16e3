import NqcBlocks.Proofs.Program.Collection

/-!
# Writing blocks in a scope that serves them

In a scope that has all variables of a block, writing the block gives the code it stands for and the
notes about it, and leaves the scope as it is. `Gen.Emits g r s x U a N` says so of a computation: in
the scope `s` it ends with the value `a`, having resolved the names in `U` and made the notes `N`, and
with nothing else changed.
-/

namespace NqcBlocks

open Nqc List Table Number Set

variable {n : Node} {operands : Operands} {bodies : Bodies} {t : BlockTree}

namespace Gen

variable {α β : Type}

def Emits (g : Graph) (r : Resolver) (s : Scope) (x : Gen α) (uses : Set ReservedNameError) (a : α)
    (notes : List CodeNote) : Prop :=
  ∀ c : Context, c.scope = some s → Ends g r x c uses a { c with notes := c.notes ++ notes }

namespace Emits

variable {g : Graph} {r : Resolver} {s : Scope} {x : Gen α} {f : α → Gen β}
  {U V : Set ReservedNameError} {a : α} {b : β} {N M : List CodeNote}

theorem of_ends (h : ∀ c : Context, c.scope = some s → Ends g r x c U a c) : Emits g r s x U a [] := by
  intro c hs
  rw [append_nil]
  exact h c hs

theorem pure (a : α) : Emits g r s (pure a) ∅ a [] := of_ends fun c _ => .pure a c

theorem bind (hx : Emits g r s x U a N) (hf : Emits g r s (f a) V b M) :
    Emits g r s (x >>= f) (U ∪ V) b (N ++ M) := by
  intro c hs
  have hlast := hf { c with notes := c.notes ++ N } hs
  rw [append_assoc] at hlast
  exact (hx c hs).bind hlast

theorem congr_uses (hx : Emits g r s x U a N) (hUV : U = V) : Emits g r s x V a N := hUV ▸ hx

theorem bind_step (hx : Emits g r s x ∅ a []) (hf : Emits g r s (f a) U b N) :
    Emits g r s (x >>= f) U b N := (hx.bind hf).congr_uses (empty_union U)

theorem bind_last (hx : Emits g r s x U a N) (hf : Emits g r s (f a) ∅ b []) : Emits g r s (x >>= f) U b N := by
  have h := (hx.bind hf).congr_uses (union_empty U)
  rw [append_nil] at h
  exact h

theorem bind_pure {k : α → β} (hx : Emits g r s x U a N) :
    Emits g r s (x >>= fun a => Pure.pure (k a)) U (k a) N := hx.bind_last (.pure (k a))

theorem map {k : α → β} (hx : Emits g r s x U a N) : Emits g r s (k <$> x) U (k a) N :=
  fun c hs => (hx c hs).map

theorem mapM {ι : Type} {f : ι → Gen β} {uses : ι → Set ReservedNameError} {b : ι → β}
    {notes : ι → List CodeNote} : ∀ {xs : List ι},
    (∀ i ∈ xs, Emits g r s (f i) (uses i) (b i) (notes i)) →
    Emits g r s (xs.mapM f) { u | ∃ i ∈ xs, u ∈ uses i } (xs.map b) (xs.flatMap notes)
  | [], _ => by
    rw [mapM_nil]
    refine (Emits.pure _).congr_uses ?_
    ext u
    simp
  | i :: xs, h => by
    have hfirst := h i mem_cons_self
    have hrest := Emits.mapM fun j hj => h j (mem_cons_of_mem _ hj)
    rw [mapM_cons, map_cons, flatMap_cons]
    refine (hfirst.bind hrest.bind_pure).congr_uses ?_
    ext u
    simp

end Emits

end Gen

open Gen

/-! ## Names in sockets -/

def usedIn (slots : List String) (uses : String → Set ReservedNameError) : Set ReservedNameError :=
  { u | ∃ slot ∈ slots, u ∈ uses slot }

@[simp] theorem usedIn_nil (uses : String → Set ReservedNameError) : usedIn [] uses = ∅ := by
  ext u
  simp [usedIn]

@[simp] theorem usedIn_cons (slot : String) (slots : List String) (uses : String → Set ReservedNameError) :
    usedIn (slot :: slots) uses = uses slot ∪ usedIn slots uses := by
  ext u
  simp [usedIn]

def Node.nameSet (n : Node) : Set ReservedNameError := { u | u ∈ n.names }

theorem Node.nameSet_of_none (h : n.kind.nameField? = none) : n.nameSet = ∅ := by
  ext u
  simp [nameSet, names, h]

theorem Node.nameSet_of_some {field : String} {use : NameUse}
    (h : n.kind.nameField? = some (field, use)) : n.nameSet = {⟨n.text field, use⟩} := by
  ext u
  simp [nameSet, names, h]

section Node

variable {g : Graph} {r : Resolver} {s : Scope} {spec : BlockSpec}
  {value : String → Order → Gen Expr} {uses : String → Set ReservedNameError} {expr : String → Expr}
  {notes : String → Order → List CodeNote}

theorem emits_useVariable (hc : n.Conforms spec) (hfield : n.kind.nameField? = some ("VAR", .variable))
    (hdecl : ∀ v ∈ n.variables, s.contains (r.spell .variable v) = true) :
    Emits g r s (useVariable (n.text "VAR")) {⟨n.text "VAR", .variable⟩} (r.spell .variable (n.text "VAR")) [] := by
  have hvars : n.variables = [n.text "VAR"] := by
    unfold Node.variables Node.names
    rw [hfield]
    rfl
  rw [hvars] at hdecl
  refine .of_ends fun c hs => ends_useVariable hs ?_ (hdecl _ (mem_singleton.mpr rfl))
  rcases hc.variables with ⟨-, hv⟩ | ⟨-, -, -, hname⟩
  · rw [hv] at hvars
    cases hvars
  · intro h
    rw [h] at hname
    exact absurd hname (by decide)

theorem emits_valueCode (hc : n.Conforms spec) (hval : n.isValue = true)
    (hdecl : ∀ v ∈ n.variables, s.contains (r.spell .variable v) = true)
    (hvalue : ∀ slot ∈ n.valueSlots.names, ∀ required,
      Emits g r s (value slot required) (uses slot) (expr slot) (notes slot required)) :
    Emits g r s (valueCode n value) (n.nameSet ∪ usedIn n.valueSlots.names uses)
      (valueExpr (.ofScope r s) n expr) (valueNotes n notes) := by
  have hknown := hc.known
  unfold valueCode valueExpr valueNotes
  unfold Node.isValue at hval
  cases hk : n.kind <;> rw [hk] at hknown hval <;> cases hknown <;> cases hval
  case variableGet =>
    have hfield := congrArg BlockKind.nameField? hk
    have hslots : n.valueSlots.names = [] := (hc.slotNames rfl).1
    rw [Node.nameSet_of_some hfield, hslots, usedIn_nil, union_empty]
    exact (emits_useVariable hc hfield hdecl).bind_pure
  all_goals rw [Node.nameSet_of_none (congrArg BlockKind.nameField? hk), empty_union]
  case number | percent | boolean | touchValue | lightValue | rotationValue | temperatureValue =>
    have hslots : n.valueSlots.names = [] := (hc.slotNames rfl).1
    rw [hslots, usedIn_nil]
    exact .pure _
  case arithmetic | compare | logic =>
    have hslots : n.valueSlots.names = ["A", "B"] := (hc.slotNames rfl).1
    rw [hslots] at hvalue ⊢
    simp only [usedIn_cons, usedIn_nil, union_empty]
    exact (hvalue "A" mem_cons_self _).bind (hvalue "B" (mem_cons_of_mem _ mem_cons_self) _).bind_pure
  case negate | group =>
    rw [(hc.slotNames rfl).1] at hvalue ⊢
    exact (hvalue _ mem_cons_self _).bind_pure.congr_uses (by simp)

theorem emits_armsCode (count : Nat) {body : String → Gen (List Stmt)}
    {bodyUses : String → Set ReservedNameError} {stmts : String → List Stmt} {inner : String → List CodeNote}
    (hvalue : ∀ i < count, Emits g r s (value ("IF" ++ natText i) .none)
      (uses ("IF" ++ natText i)) (expr ("IF" ++ natText i))
      (notes ("IF" ++ natText i) .none)) (hbody : ∀ i < count, Emits g r s (body ("DO" ++ natText i))
      (bodyUses ("DO" ++ natText i)) (stmts ("DO" ++ natText i))
      (inner ("DO" ++ natText i))) :
    Emits g r s (armsCode value body count) (usedIn ((List.range count).map ("IF" ++ natText ·)) uses
        ∪ usedIn ((List.range count).map ("DO" ++ natText ·)) bodyUses)
      (arms expr stmts count)
      ((List.range count).flatMap fun i =>
        notes ("IF" ++ natText i) .none ++ inner ("DO" ++ natText i)) := by
  refine (Emits.mapM fun i hi => (hvalue i (List.mem_range.mp hi)).bind
    (hbody i (List.mem_range.mp hi)).bind_pure).congr_uses ?_
  ext u
  simp only [usedIn, mem_ofPred_eq, mem_union, mem_map, exists_exists_and_eq_and, and_or_left, exists_or]

variable {needs : Gen Bool} {counter : Bool} {body : String → Gen (List Stmt)}
  {bodyUses : String → Set ReservedNameError} {stmts : String → List Stmt} {inner : String → List CodeNote}

theorem emits_conditional (hc : n.Conforms spec) (hk : n.kind = .conditional) (hshape : spec.shape = .branches)
    (hvalue : ∀ slot ∈ n.valueSlots.names, ∀ required,
      Emits g r s (value slot required) (uses slot) (expr slot) (notes slot required))
    (hbody : ∀ slot ∈ n.statementSlots.names, Emits g r s (body slot) (bodyUses slot) (stmts slot) (inner slot)) :
    Emits g r s (statementCode n needs value body)
      (usedIn n.valueSlots.names uses ∪ usedIn n.statementSlots.names bodyUses)
      (nodeStmts (.ofScope r s) n counter expr stmts) (nodeNotes n counter notes inner) := by
  obtain ⟨count, hasElse, hvalues, hstatements, hlength, helse⟩ := hc.branchSlots hshape
  have harms := emits_armsCode (g := g) (r := r) (s := s) (count + 1) (fun i hi => hvalue ("IF" ++ natText i)
      (hvalues ▸ mem_map.mpr ⟨i, List.mem_range.mpr hi, rfl⟩) .none)
    (fun i hi => hbody ("DO" ++ natText i)
      (hstatements ▸ mem_append_left _ (mem_map.mpr ⟨i, List.mem_range.mpr hi, rfl⟩)))
  unfold statementCode nodeStmts nodeNotes
  rw [hk]
  dsimp only
  rw [hlength, helse, hvalues, hstatements]
  cases hasElse with
  | false =>
    simp only [Bool.false_eq_true, if_false, append_nil]
    exact harms.bind_last ((Emits.pure none).bind_pure)
  | true =>
    have hlast := hbody "ELSE" (by rw [hstatements]; exact mem_append_right _ (by simp))
    simp only [if_true]
    refine (harms.bind hlast.map.bind_pure).congr_uses ?_
    ext u
    simp [usedIn, or_assoc, or_and_right, exists_or]

theorem emits_repeatTimes (hk : n.kind = .repeatTimes) (hneeds : Emits g r s needs ∅ counter [])
    (hloop : counter = true → ∃ name, s.auxiliaryName? n.handle = some name)
    (htimes : ∀ required, Emits g r s (value "TIMES" required) (uses "TIMES") (expr "TIMES") (notes "TIMES" required))
    (hdo : Emits g r s (body "DO") (bodyUses "DO") (stmts "DO") (inner "DO")) :
    Emits g r s (statementCode n needs value body) (uses "TIMES" ∪ bodyUses "DO")
      (nodeStmts (.ofScope r s) n counter expr stmts) (nodeNotes n counter notes inner) := by
  unfold statementCode nodeStmts nodeNotes
  rw [hk]
  dsimp only
  refine hneeds.bind_step ?_
  cases counter with
  | false => exact (htimes .none).bind hdo.bind_pure
  | true =>
    obtain ⟨name, hname⟩ := hloop rfl
    have hbound : (Spelling.ofScope r s).bound n.handle = name := by
      unfold Spelling.ofScope
      dsimp only
      rw [hname]
      rfl
    rw [hbound]
    exact (Emits.of_ends fun c hs => ends_auxiliary hs hname).bind_step ((htimes .assignment).bind hdo.bind_pure)

theorem emits_statementCode (hc : n.Conforms spec) (hren : n.kind.isRenderable = true)
    (hneeds : Emits g r s needs ∅ counter [])
    (hloop : counter = true → ∃ name, s.auxiliaryName? n.handle = some name)
    (hdecl : ∀ v ∈ n.variables, s.contains (r.spell .variable v) = true)
    (hvalue : ∀ slot ∈ n.valueSlots.names, ∀ required,
      Emits g r s (value slot required) (uses slot) (expr slot) (notes slot required))
    (hbody : ∀ slot ∈ n.statementSlots.names, Emits g r s (body slot) (bodyUses slot) (stmts slot) (inner slot)) :
    Emits g r s (statementCode n needs value body)
      (n.nameSet ∪ (usedIn n.valueSlots.names uses ∪ usedIn n.statementSlots.names bodyUses))
      (nodeStmts (.ofScope r s) n counter expr stmts) (nodeNotes n counter notes inner) := by
  have hknown := hc.known
  cases hk : n.kind <;> rw [hk] at hknown hren <;> cases hknown <;> cases hren
  case touchValue | lightValue | rotationValue | temperatureValue | variableGet | number | percent
      | arithmetic | group | compare | logic | negate | boolean =>
    have hval : n.isValue = true := by
      unfold Node.isValue
      rw [hk]
      rfl
    have hbodies : n.statementSlots.names = [] := (hc.slotNames rfl).2
    unfold statementCode nodeStmts nodeNotes
    rw [hk, hbodies, usedIn_nil, union_empty]
    exact (emits_valueCode hc hval hdecl hvalue).bind_pure
  case variableSet =>
    have hfield := congrArg BlockKind.nameField? hk
    have hvalues : n.valueSlots.names = ["VALUE"] := (hc.slotNames rfl).1
    have hbodies : n.statementSlots.names = [] := (hc.slotNames rfl).2
    unfold statementCode nodeStmts nodeNotes
    rw [hk, Node.nameSet_of_some hfield, hvalues, hbodies]
    simp only [usedIn_cons, usedIn_nil, union_empty]
    exact (emits_useVariable hc hfield hdecl).bind (hvalue "VALUE" (hvalues ▸ mem_singleton.mpr rfl) .assignment).bind_pure
  case startTask | stopTask =>
    have hvalues : n.valueSlots.names = [] := (hc.slotNames rfl).1
    have hbodies : n.statementSlots.names = [] := (hc.slotNames rfl).2
    unfold statementCode nodeStmts nodeNotes valueNotes
    rw [hk, Node.nameSet_of_some (congrArg BlockKind.nameField? hk), hvalues, hbodies]
    simp only [usedIn_nil, union_empty]
    exact (Emits.of_ends fun c _ => ends_resolve .task (n.text "NAME")).bind_pure
  all_goals rw [Node.nameSet_of_none (congrArg BlockKind.nameField? hk), empty_union]
  case conditional => exact emits_conditional hc hk rfl hvalue hbody
  all_goals
    rw [(hc.slotNames rfl).1] at hvalue ⊢
    rw [(hc.slotNames rfl).2] at hbody ⊢
  case repeatTimes =>
    exact (emits_repeatTimes hk hneeds hloop (hvalue "TIMES" mem_cons_self) (hbody "DO" mem_cons_self)).congr_uses
      (by simp)
  all_goals (unfold statementCode nodeStmts nodeNotes valueNotes; rw [hk]; dsimp only)
  case motorOn | motorOff | setDirection | playSound | touchSensorSetup | lightSensorSetup
      | rotationSensorSetup | temperatureSensorSetup =>
    exact (Emits.pure _).congr_uses (by simp [Builtin.sensorSetup])
  case motorOnWithPower | setPower | waitSeconds | waitUntil =>
    exact (hvalue _ mem_cons_self _).bind_pure.congr_uses (by simp)
  case repeatForever => exact (hbody "DO" mem_cons_self).bind_pure.congr_uses (by simp)
  case repeatUntil =>
    exact ((hbody "DO" mem_cons_self).bind (hvalue "CONDITION" mem_cons_self .none).bind_pure).congr_uses
      (by simp [union_comm])

end Node

/-! ## Trees -/

theorem get?_occupantsOf (operands : Operands) (slot : String) :
    get? slot (occupantsOf operands) = (get? slot operands).map fun o =>
      o.map fun t => ⟨t.node.handle, t.node.enabled, t.valueCode⟩ := by
  refine get?_of_cons rfl (fun slot o rest => ?_) slot operands
  cases o <;> rw [occupantsOf] <;> rfl

theorem get?_readings (σ : Spelling) (operands : Operands) (slot : String) :
    get? slot (readings σ operands) = (get? slot operands).map fun o =>
      (o.filter (·.node.enabled)).map (·.reading σ) :=
  get?_operands rfl (fun _ _ => by rw [readings]) (fun _ _ _ => by rw [readings]) operands slot

theorem get?_bodiesCode (catalog : Catalog) (slot : String) (bodies : Bodies) :
    get? slot (bodiesCode catalog bodies) = (get? slot bodies).map (chainCode catalog) :=
  get?_of_cons rfl (fun _ _ _ => by rw [bodiesCode]) slot bodies

theorem getD_bodyStmts (σ : Spelling) (bodies : Bodies) (slot : String) :
    (get? slot (bodyStmts σ bodies)).getD [] = chainStmts σ (chainAt bodies slot) :=
  getD_bodies rfl rfl (fun _ _ _ => by rw [bodyStmts]) bodies slot

theorem getD_bodyNotes (σ : Spelling) (bodies : Bodies) (slot : String) :
    (get? slot (bodyNotes σ bodies)).getD [] = chainNotes σ (chainAt bodies slot) :=
  getD_bodies rfl rfl (fun _ _ _ => by rw [bodyNotes]) bodies slot

@[simp] theorem namesOf_nil : namesOf [] = ∅ := by
  ext u
  simp [namesOf]

theorem namesOf_append (ps qs : List BlockTree) : namesOf (ps ++ qs) = namesOf ps ∪ namesOf qs := by
  ext u
  simp [namesOf, or_and_right, exists_or]

def slotNames (operands : Operands) (slot : String) : Set ReservedNameError :=
  namesOf (((Table.get? slot operands).join.map BlockTree.parts).getD [])

def bodyNames (bodies : Bodies) (slot : String) : Set ReservedNameError :=
  namesOf (chainParts (chainAt bodies slot))

theorem usedIn_slotNames (hnd : (names operands).Nodup) :
    usedIn (names operands) (slotNames operands) = namesOf (operandParts operands) := by
  ext u
  unfold usedIn slotNames namesOf
  simp only [mem_ofPred_eq, mem_operandParts]
  constructor
  · rintro ⟨slot, -, p, hp, hu⟩
    rcases hget : get? slot operands with _ | _ | t <;> rw [hget] at hp
    · cases hp
    · cases hp
    · exact ⟨p, ⟨slot, t, (get?_eq_some_iff hnd).mp hget, hp⟩, hu⟩
  · rintro ⟨p, ⟨slot, t, hmem, hp⟩, hu⟩
    refine ⟨slot, mem_map_of_mem hmem, p, ?_, hu⟩
    rw [(get?_eq_some_iff hnd).mpr hmem]
    exact hp

theorem usedIn_bodyNames (hnd : (names bodies).Nodup) :
    usedIn (names bodies) (bodyNames bodies) = namesOf (bodyParts bodies) := by
  ext u
  unfold usedIn bodyNames namesOf
  simp only [mem_ofPred_eq, mem_bodyParts]
  constructor
  · rintro ⟨slot, -, p, hp, hu⟩
    obtain ⟨t, ht, -⟩ := mem_chainParts.mp hp
    exact ⟨p, ⟨slot, _, mem_of_mem_chainAt ht, hp⟩, hu⟩
  · rintro ⟨p, ⟨slot, chain, hmem, hp⟩, hu⟩
    exact ⟨slot, mem_map_of_mem hmem, p, (chainAt_of_mem hnd hmem).symm ▸ hp, hu⟩

theorem namesOf_parts {g : Graph} {spec : BlockSpec} (hn : n.Fitted g spec operands bodies)
    (hen : n.enabled = true) : namesOf (BlockTree.mk n true operands bodies).parts
      = n.nameSet ∪ (usedIn n.valueSlots.names (slotNames operands)
        ∪ usedIn n.statementSlots.names (bodyNames bodies)) := by
  rw [← hn.operandNames, ← hn.bodyNames, usedIn_slotNames hn.nodup_operands,
    usedIn_bodyNames hn.nodup_bodies, BlockTree.parts, if_pos hen]
  ext u
  simp [namesOf, Node.nameSet, BlockTree.node, or_and_right, exists_or]

section Trees

variable {g : Graph} {r : Resolver} {s : Scope}

theorem emits_slotCode {slot : String} (hslot : slot ∈ names operands)
    (h : ∀ {t}, (slot, some t) ∈ operands → t.node.enabled = true →
      Emits g r s t.valueCode (namesOf t.parts) (t.reading (.ofScope r s)).expr
        (t.reading (.ofScope r s)).notes) (required : Order) :
    Emits g r s (slotCode n true (occupantsOf operands) slot required) (slotNames operands slot)
      (slotExpr n (readings (.ofScope r s) operands) slot)
      (slotNotes n (readings (.ofScope r s) operands) slot required) := by
  obtain ⟨o, ho⟩ := exists_get?_of_mem_names hslot
  unfold slotCode slotExpr slotNotes slotNames
  rw [get?_occupantsOf, get?_readings, ho]
  -- the socket is empty, holds a disabled value or an enabled one
  cases o with
  | none =>
    show Emits g r s (pure _) (namesOf []) _ _
    rw [namesOf_nil]
    exact .pure _
  | some t =>
    cases hen : t.node.enabled with
    | false =>
      have hparts := BlockTree.parts_of_disabled (t := t) (by rw [hen]; decide)
      simp only [Option.map_some, Option.filter_some, hen, Option.join_some, Option.getD_some, hparts, namesOf_nil]
      exact .pure _
    | true =>
      have hvalue := h ((mem_of_get? ho)) hen
      simp only [Option.map_some, Option.filter_some, hen, if_true, Option.join_some,
        Option.getD_some, Bool.not_true, Bool.false_eq_true, if_false]
      have hnode : (t.reading (.ofScope r s)).node = t.node.handle := by
        cases t
        rfl
      rw [hnode]
      refine (hvalue.bind ?_).congr_uses (union_empty _)
      split
      · exact Emits.bind_pure fun c _ => ends_note _ _
      · exact .pure _

theorem emits_bodyCode {slot : String} (hslot : slot ∈ names bodies)
    (h : Emits g r s (chainCode .builtin (chainAt bodies slot)) (bodyNames bodies slot)
      (chainStmts (.ofScope r s) (chainAt bodies slot))
      (chainNotes (.ofScope r s) (chainAt bodies slot))) :
    Emits g r s (bodyCode n true (bodiesCode .builtin bodies) slot) (bodyNames bodies slot)
      ((get? slot (bodyStmts (.ofScope r s) bodies)).getD [])
      ((get? slot (bodyNotes (.ofScope r s) bodies)).getD []) := by
  obtain ⟨chain, hchain⟩ := exists_get?_of_mem_names hslot
  unfold bodyCode
  unfold chainAt at h
  rw [getD_bodyStmts, getD_bodyNotes, get?_bodiesCode]
  unfold chainAt
  rw [hchain] at h ⊢
  exact h

theorem BlockTree.Sound.emits_valueCode (ht : t.Sound g) (hval : t.node.isValue = true) :
    t.node.enabled = true → s.Serves r t.parts →
      Emits g r s t.valueCode (namesOf t.parts) (t.reading (.ofScope r s)).expr (t.reading (.ofScope r s)).notes := by
  induction ht, hval using BlockTree.Sound.induct_value with
  | @value n spec operands hn hval ih =>
    intro hen hserve
    have hself : BlockTree.mk n true operands [] ∈ (BlockTree.mk n true operands []).parts :=
      mem_parts_iff.mpr ⟨hen, .inl rfl⟩
    rw [namesOf_parts hn hen, hn.conforms.statementSlots_of_isValue hval, usedIn_nil, union_empty,
      BlockTree.valueCode, BlockTree.reading]
    refine NqcBlocks.emits_valueCode hn.conforms hval (fun v hv => hserve.declared v (mem_flatMap.mpr ⟨_, hself, hv⟩))
      (fun slot hslot required => emits_slotCode (hn.operandNames ▸ hslot) ?_ required)
    intro t hmem hten
    exact ih hmem hten (hserve.mono fun p hp => mem_parts_of_operand hen hmem hp)

/-! ## Remarks -/

theorem ends_commentLines (hn : g.get? n.handle = some n) (c : Context) : Ends g r n.commentLines c ∅ n.remark c := by
  unfold Node.commentLines Node.remark
  cases hj : n.comment.bind Json.truthy? with
  | none => exact .pure _ c
  | some j =>
    cases j with
    | text s => exact .pure _ c
    | _ => exact fun _ _ => ⟨prefix_rfl, .inr (.inr ⟨n, hn, ⟨_, hj, rfl⟩, _, rfl, prefix_rfl⟩)⟩

theorem ends_operandComments : ∀ {operands : Operands},
    (∀ {slot t}, (slot, some t) ∈ operands → ∀ c, Ends g r t.comments c ∅ t.remarks c) →
      ∀ c, Ends g r (operandComments operands) c ∅ (operandRemarks operands) c
  | [], _, c => by
    rw [operandComments, operandRemarks]
    exact .pure _ c
  | (_, none) :: rest, h, c => by
    rw [operandComments, operandRemarks]
    exact ends_operandComments (fun ht => h (mem_cons_of_mem _ ht)) c
  | (_, some t) :: rest, h, c => by
    rw [operandComments, operandRemarks]
    exact (h mem_cons_self c).bind_step
      ((ends_operandComments (fun ht => h (mem_cons_of_mem _ ht)) c).bind_step (.pure _ c))

theorem BlockTree.Sound.ends_comments (ht : t.Sound g) : ∀ c, Ends g r t.comments c ∅ t.remarks c := by
  induction ht with
  | block hn ihop ihbody =>
    intro c
    rw [BlockTree.comments, BlockTree.remarks]
    exact (ends_commentLines hn.present c).bind_step ((ends_operandComments ihop c).bind_step (.pure _ c))

/-! ## Statements -/

theorem Node.isRenderable_of_isStatement (h : n.isStatement = true) : n.kind.isRenderable = true := by
  unfold Node.isStatement at h
  cases hk : n.kind <;> rw [hk] at h <;> first | rfl | cases h

theorem emits_chainCode : ∀ {chain : List BlockTree},
    (∀ t ∈ chain, Emits g r s (t.code .builtin) (namesOf t.parts) (t.stmts (.ofScope r s)) (t.notes (.ofScope r s))) →
    Emits g r s (chainCode .builtin chain) (namesOf (chainParts chain))
      (chainStmts (.ofScope r s) chain) (chainNotes (.ofScope r s) chain)
  | [], _ => by
    rw [chainCode, chainParts, chainStmts, chainNotes]
    rw [namesOf_nil]
    exact .pure _
  | t :: rest, h => by
    have hrest := emits_chainCode fun t ht => h t (mem_cons_of_mem _ ht)
    rw [chainCode, chainParts, chainStmts, chainNotes]
    rw [namesOf_append]
    exact (h t mem_cons_self).bind hrest.bind_pure

theorem BlockTree.Sound.induct_code
    {motive : ∀ t : BlockTree, t.Sound g → t.node.kind.isRenderable = true → Prop}
    (code : ∀ {n : Node} {spec : BlockSpec} {operands : Operands}
      {bodies : Bodies} (hn : n.Fitted g spec operands bodies) (hren : n.kind.isRenderable = true),
      (∀ {slot ts} (hmem : (slot, ts) ∈ bodies) (t) (ht : t ∈ ts), motive t (hn.body hmem t ht)
        (Node.isRenderable_of_isStatement (hn.statements hmem t ht))) →
      motive _ hn.sound hren)
    (ht : t.Sound g) (hren : t.node.kind.isRenderable = true) : motive t ht hren := by
  induction ht with
  | block hn _ ihbody => exact code hn hren fun hmem t ht => ihbody hmem t ht _

theorem BlockTree.Sound.emits_code (ht : t.Sound g) (hren : t.node.kind.isRenderable = true) :
    s.Serves r t.parts → Emits g r s (t.code .builtin) (namesOf t.parts) (t.stmts (.ofScope r s))
        (t.notes (.ofScope r s)) := by
  induction ht, hren using BlockTree.Sound.induct_code with
  | @code n spec operands bodies hn hren ih =>
    intro hserve
    rw [BlockTree.code, BlockTree.stmts, BlockTree.notes]
    by_cases hen : n.enabled = true
    · rw [if_pos hen, if_pos hen, if_pos hen, namesOf_parts hn hen]
      have hself : BlockTree.mk n true operands bodies
          ∈ (BlockTree.mk n true operands bodies).parts := mem_parts_iff.mpr ⟨hen, .inl rfl⟩
      refine (Emits.of_ends fun c _ => hn.sound.ends_comments c).bind_step (Emits.bind_pure ?_)
      refine emits_statementCode hn.conforms hren
        (.of_ends fun c _ => ends_ofGraph hn.sound.needsBound_eq) (fun hcounter => ?_)
        (fun v hv => hserve.declared v (mem_flatMap.mpr ⟨_, hself, hv⟩))
        (fun slot hslot required => emits_slotCode (hn.operandNames ▸ hslot) ?_ required)
        (fun slot hslot => emits_bodyCode (hn.bodyNames ▸ hslot) (emits_chainCode fun t ht => ?_))
      · exact hserve.loops n (mem_map.mpr ⟨_, mem_filter.mpr ⟨hself, hcounter⟩, rfl⟩)
      · intro t hmem hten
        exact (hn.operand hmem).emits_valueCode (hn.isValue hmem) hten
          (hserve.mono fun p hp => mem_parts_of_operand hen hmem hp)
      · exact ih (mem_of_mem_chainAt ht) t ht
          (hserve.mono fun p hp => mem_parts_of_body hen (mem_of_mem_chainAt ht) ht hp)
    · rw [if_neg hen, if_neg hen, if_neg hen,
        BlockTree.parts_of_disabled (t := .mk n true operands bodies) hen, namesOf_nil]
      exact .pure _

end Trees

end NqcBlocks
