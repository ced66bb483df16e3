import NqcBlocks.Proofs.Program.Execution
import NqcBlocks.Proofs.Program.Meaning

/-!
# What the collection of variables leaves

Before a section is written its blocks are gone through, and the variables they use are declared in the
scope. This module says in closed form what scope that leaves (`sectionScope`): the variables that the
parts of the chains name, in the order of the parts, and after them the variables of the loops among
the parts that need one.
-/

namespace NqcBlocks

open List Scope

variable {t : BlockTree} {qs : List BlockTree} {key : ScopeKey} {r : Resolver}

def variablesOf (parts : List BlockTree) : List String := parts.flatMap (·.node.variables)

def loopsOf (parts : List BlockTree) : List Node :=
  (parts.filter BlockTree.needsCounter).map (·.node)

def variableNames (parts : List BlockTree) : Set ReservedNameError :=
  { u | ∃ v ∈ variablesOf parts, u = ⟨v, .variable⟩ }

def Scope.withVariables (r : Resolver) (s : Scope) (parts : List BlockTree) : Scope :=
  s.declareAll ((variablesOf parts).map (r.spell .variable))

def sectionScope (r : Resolver) (key : ScopeKey) (parts : List BlockTree) : Scope :=
  Scope.allocateAll r (Scope.withVariables r { key } parts) ((loopsOf parts).map (·.handle))

theorem variablesOf_append (ps qs : List BlockTree) :
    variablesOf (ps ++ qs) = variablesOf ps ++ variablesOf qs := flatMap_append

theorem loopsOf_append (ps qs : List BlockTree) : loopsOf (ps ++ qs) = loopsOf ps ++ loopsOf qs := by
  unfold loopsOf
  rw [filter_append, map_append]

theorem variableNames_append (ps qs : List BlockTree) :
    variableNames (ps ++ qs) = variableNames ps ∪ variableNames qs := by
  ext u
  unfold variableNames
  rw [variablesOf_append]
  simp only [mem_append, Set.mem_ofPred_eq, Set.mem_union, or_and_right, exists_or]

theorem Scope.withVariables_append (r : Resolver) (s : Scope) (ps qs : List BlockTree) :
    withVariables r s (ps ++ qs) = withVariables r (withVariables r s ps) qs := by
  unfold withVariables declareAll
  rw [variablesOf_append, map_append, foldl_append]

/-! ## Blocks -/

theorem Node.Conforms.variables {n : Node} {spec : BlockSpec} (hc : n.Conforms spec) :
    spec.variableField = none ∧ n.variables = []
      ∨ spec.variableField = some "VAR" ∧ n.variables = [n.text "VAR"]
        ∧ n.fields.get? "VAR" = some (.text (n.text "VAR")) ∧ isName (n.text "VAR") = true := by
  have hvar : n.variables = [n.text "VAR"] → spec.variableField = some "VAR" →
      Builtin.identifier "VAR" "x" ∈ spec.fields → spec.variableField = some "VAR"
        ∧ n.variables = [n.text "VAR"] ∧ n.fields.get? "VAR" = some (.text (n.text "VAR"))
        ∧ isName (n.text "VAR") = true := by
    intro hn hf hmem
    obtain ⟨hget, hname⟩ := hc.identifier hmem rfl
    refine ⟨hf, hn, hget, hname.resolve_left ?_⟩
    rintro ⟨-, hempty⟩
    cases hempty
  have hknown := hc.known
  unfold Node.variables Node.names at hvar ⊢
  cases hk : n.kind <;> rw [hk] at hknown hvar <;> cases hknown
  case variableSet => exact .inr (hvar rfl rfl (mem_singleton.mpr rfl))
  case variableGet => exact .inr (hvar rfl rfl (mem_singleton.mpr rfl))
  all_goals exact .inl ⟨rfl, rfl⟩

theorem BlockTree.Sound.needsBound_eq {g : Graph} (ht : t.Sound g) : needsBound .builtin t = .ok t.needsCounter := by
  obtain ⟨-, hc, hnames, -, -, -, -, -⟩ := ht
  next n spec operands bodies =>
  unfold needsBound needsCounter
  rw [Catalog.spec?_builtin]
  simp only [BlockTree.node, BlockTree.attached, BlockTree.operands]
  have hknown := hc.known
  by_cases hk : n.kind = .repeatTimes
  · -- the block has the socket for the count
    rw [hk] at hknown
    cases hknown
    have hmem : "TIMES" ∈ Table.names operands := by
      show "TIMES" ∈ operands.map (·.1)
      rw [hnames, (hc.slotNames rfl).1]
      exact mem_singleton.mpr rfl
    obtain ⟨bound, hbound⟩ := Table.exists_get?_of_mem_names hmem
    simp only [hk, Builtin.spec?, Option.bind_some, hbound]
    cases bound <;> rfl
  · have hnone : (Builtin.spec? n.kind).bind (·.countedBound) = none := by
      cases hkind : n.kind <;> first | rfl | exact absurd hkind hk
    rw [hnone, beq_eq_false_iff_ne.mpr hk]
    rfl

/-! ## Scanning -/

/-- A computation **scans** some parts: it declares their variables in the open scope and returns the
loops among them that need a variable. -/
def Scans (g : Graph) (r : Resolver) (x : Gen (List Node)) (parts : List BlockTree) : Prop :=
  ∀ (c : Context) (s : Scope), c.scope = some s →
    Gen.Ends g r x c (variableNames parts) (loopsOf parts)
      { c with scope := some (s.withVariables r parts) }

namespace Scans

variable {g : Graph}

theorem nil : Scans g r (pure []) [] := by
  intro c s hs
  have hvars : variableNames [] = ∅ := by
    ext u
    simp [variableNames, variablesOf]
  rw [hvars]
  have hc : { c with scope := some (s.withVariables r []) } = c := by
    show { c with scope := some s } = c
    rw [← hs]
  rw [hc]
  exact .pure [] c

theorem append {x y : Gen (List Node)} {ps : List BlockTree} (hx : Scans g r x ps)
    (hy : Scans g r y qs) : Scans g r (do let first ← x; pure (first ++ (← y))) (ps ++ qs) := by
  intro c s hs
  rw [variableNames_append, loopsOf_append, withVariables_append]
  exact (hx c s hs).bind ((hy _ _ rfl).bind_last (.pure _ _))

end Scans

section Collection

-- no remark is looked at here, so that the graph of the remarks need not be that of the blocks
variable {g g' : Graph}

theorem ends_registerVariableOf {n : Node} {spec : BlockSpec} (hc : n.Conforms spec) {c : Context}
    {s : Scope} (hs : c.scope = some s) :
    Gen.Ends g r (registerVariableOf spec n) c { u | ∃ v ∈ n.variables, u = ⟨v, .variable⟩ } ()
      { c with scope := some (s.declareAll (n.variables.map (r.spell .variable))) } := by
  unfold registerVariableOf
  rcases hc.variables with ⟨hf, hv⟩ | ⟨hf, hv, hget, hname⟩
  · rw [hf, hv]
    have hc : { c with scope := some s } = c := by rw [← hs]
    have hnone : { u : ReservedNameError | ∃ v ∈ ([] : List String), u = ⟨v, .variable⟩ } = ∅ := by
      ext u
      simp
    rw [hnone]
    show Gen.Ends g r (pure ()) c ∅ () { c with scope := some s }
    rw [hc]
    exact .pure () c
  · rw [hf, hv]
    have hne : n.text "VAR" ≠ "" := by
      intro h
      rw [h] at hname
      exact absurd hname (by decide)
    have hone : { u : ReservedNameError | ∃ v ∈ [n.text "VAR"], u = ⟨v, .variable⟩ }
        = {⟨n.text "VAR", .variable⟩} := by
      ext u
      simp
    rw [hone]
    refine .get_bind fun names _ => ?_
    simp only [hs, hget]
    exact (Gen.ends_useValue hs hne).discard

theorem scans_append {y : Gen (List Node)}
    (h : t.node.enabled = true → Scans g r (scanTree .builtin t) t.parts) (hy : Scans g r y qs) :
    Scans g r (do
      let first ← if t.node.enabled then scanTree .builtin t else pure []
      pure (first ++ (← y))) (t.parts ++ qs) := by
  split
  · next hen => exact (h hen).append hy
  · next hen =>
    rw [BlockTree.parts_of_disabled hen]
    exact Scans.nil.append hy

theorem scans_operands : ∀ {operands : Operands},
    (∀ {slot t}, (slot, some t) ∈ operands → t.node.enabled = true → Scans g r (scanTree .builtin t) t.parts) →
    Scans g r (scanOperands .builtin operands) (operandParts operands)
  | [], _ => by
    rw [scanOperands, operandParts]
    exact .nil
  | (_, none) :: rest, h => by
    rw [scanOperands, operandParts]
    exact scans_operands fun ht => h (mem_cons_of_mem _ ht)
  | (_, some t) :: rest, h => by
    rw [scanOperands, operandParts]
    exact scans_append (h mem_cons_self) (scans_operands fun ht => h (mem_cons_of_mem _ ht))

theorem scans_chain : ∀ {chain : List BlockTree},
    (∀ t ∈ chain, t.node.enabled = true → Scans g r (scanTree .builtin t) t.parts) →
    Scans g r (scanChain .builtin chain) (chainParts chain)
  | [], _ => by
    rw [scanChain, chainParts]
    exact .nil
  | t :: rest, h => by
    rw [scanChain, chainParts]
    exact scans_append (h t mem_cons_self) (scans_chain fun t ht => h t (mem_cons_of_mem _ ht))

theorem scans_bodies : ∀ {bodies : Bodies},
    (∀ {slot chain}, (slot, chain) ∈ bodies → ∀ t ∈ chain, t.node.enabled = true →
      Scans g r (scanTree .builtin t) t.parts) →
    Scans g r (scanBodies .builtin bodies) (bodyParts bodies)
  | [], _ => by
    rw [scanBodies, bodyParts]
    exact .nil
  | (_, chain) :: rest, h => by
    rw [scanBodies, bodyParts]
    exact (scans_chain (h mem_cons_self)).append (scans_bodies fun ht => h (mem_cons_of_mem _ ht))

theorem BlockTree.Sound.scans (ht : t.Sound g) :
    t.node.enabled = true → Scans g' r (scanTree .builtin t) t.parts := by
  induction ht with
  | @block n spec operands bodies hn ihop ihbody =>
    intro hen c s hs
    have hparts : (BlockTree.mk n true operands bodies).parts
        = [.mk n true operands bodies] ++ (operandParts operands ++ bodyParts bodies) := by
      rw [BlockTree.parts]
      exact if_pos hen
    have hown : loopsOf [.mk n true operands bodies]
        = if (BlockTree.mk n true operands bodies).needsCounter then [n] else [] := by
      unfold loopsOf
      rw [filter_cons]
      split <;> rfl
    have hvars : variablesOf [.mk n true operands bodies] = n.variables := append_nil _
    rw [hparts, variableNames_append, variableNames_append, loopsOf_append, loopsOf_append,
      withVariables_append, withVariables_append, hown, ← append_assoc, scanTree,
      Catalog.spec?_builtin, hn.conforms.known]
    dsimp only
    have hregister := ends_registerVariableOf (g := g') (r := r) hn.conforms hs
    rw [← hvars] at hregister
    refine hregister.bind ((Gen.ends_ofGraph hn.sound.needsBound_eq).bind_step ?_)
    exact (scans_operands ihop _ _ rfl).bind ((scans_bodies ihbody _ _ rfl).bind_last (.pure _ _))

/-! ## Prescan -/

theorem chainParts_append (ts us : List BlockTree) : chainParts (ts ++ us) = chainParts ts ++ chainParts us := by
  induction ts with
  | nil => rfl
  | cons t ts ih => rw [cons_append, chainParts, chainParts, ih, append_assoc]

theorem ends_allocateBounds : ∀ {loops : List Node} {c : Context} {s : Scope}, c.scope = some s →
    Gen.Ends g r (allocateBounds loops) c ∅ ()
      { c with scope := some (allocateAll r s (loops.map (·.handle))) }
  | [], c, s, hs => by
    have hc : { c with scope := some s } = c := by rw [← hs]
    show Gen.Ends g r (pure ()) c ∅ () { c with scope := some s }
    rw [hc]
    exact .pure () c
  | loop :: rest, c, s, hs => by
    rw [allocateBounds]
    refine .get_bind fun names _ => ?_
    simp only [hs]
    exact (Gen.ends_allocate hs loop).discard.bind_step (ends_allocateBounds rfl)

theorem ends_scanChains : ∀ chains : List (List BlockTree),
    (∀ chain ∈ chains, ∀ t ∈ chain, t.Sound g) → ∀ {c : Context} {s : Scope}, c.scope = some s →
      Gen.Ends g' r (chains.mapM (scanChain .builtin)) c
        (variableNames (chainParts chains.flatten)) (chains.map fun chain => loopsOf (chainParts chain))
        { c with scope := some (s.withVariables r (chainParts chains.flatten)) }
  | [], _, c, s, hs => by
    have hnil := Scans.nil (g := g') (r := r) c s hs
    rw [mapM_nil, flatten_nil, chainParts]
    exact (hnil.map (k := fun _ => [])).congr_uses rfl
  | chain :: rest, h, c, s, hs => by
    have hchain : Scans g' r (scanChain .builtin chain) (chainParts chain) :=
      scans_chain fun t ht => (h chain mem_cons_self t ht).scans
    have hrest := ends_scanChains rest (fun x hx => h x (mem_cons_of_mem _ hx))
      (c := { c with scope := some (s.withVariables r (chainParts chain)) }) rfl
    rw [mapM_cons, flatten_cons, chainParts_append, variableNames_append, withVariables_append, map_cons]
    exact (hchain c s hs).bind (hrest.bind_last (.pure _ _))

theorem ends_prescan {chains : List (List BlockTree)} (h : ∀ chain ∈ chains, ∀ t ∈ chain, t.Sound g)
    {c : Context} (hs : c.scope = some { key }) :
    Gen.Ends g' r (prescan .builtin chains) c (variableNames (chainParts chains.flatten)) ()
      { c with scope := some (sectionScope r key (chainParts chains.flatten)) } := by
  have hloops : (chains.map fun chain => loopsOf (chainParts chain)).flatten
      = loopsOf (chainParts chains.flatten) := by
    clear h
    induction chains with
    | nil => rfl
    | cons chain rest ih =>
      rw [map_cons, flatten_cons, flatten_cons, ih, chainParts_append, loopsOf_append]
  unfold prescan sectionScope
  refine (ends_scanChains chains h hs).bind_last ?_
  rw [hloops]
  exact ends_allocateBounds rfl

end Collection

/-! ## The scope of a section -/

/-- **A scope serves some parts** if it has the variables that they name and those of their loops. -/
structure Scope.Serves (r : Resolver) (s : Scope) (parts : List BlockTree) : Prop where
  declared : ∀ v ∈ variablesOf parts, s.contains (r.spell .variable v) = true
  loops : ∀ loop ∈ loopsOf parts, ∃ name, s.auxiliaryName? loop.handle = some name

theorem Scope.Serves.mono {s : Scope} {ps : List BlockTree} (h : s.Serves r qs) (hsub : ps ⊆ qs) : s.Serves r ps where
  declared v hv := by
    obtain ⟨p, hp, hv⟩ := mem_flatMap.mp hv
    exact h.declared v (mem_flatMap.mpr ⟨p, hsub hp, hv⟩)
  loops loop hloop := by
    obtain ⟨p, hp, rfl⟩ := mem_map.mp hloop
    obtain ⟨hp, hneeds⟩ := mem_filter.mp hp
    exact h.loops p.node (mem_map_of_mem (mem_filter.mpr ⟨hsub hp, hneeds⟩))

theorem Scope.withVariables_spec (r : Resolver) (key : ScopeKey) (parts : List BlockTree) :
    (withVariables r { key } parts).names.Nodup ∧ (withVariables r { key } parts).auxiliary = []
      ∧ (withVariables r { key } parts).key = key
      ∧ ∀ y, y ∈ (withVariables r { key } parts).names
        ↔ ∃ v ∈ variablesOf parts, y = .text (r.spell .variable v) := by
  refine ⟨nodup_names_declareAll nodup_nil _, auxiliary_declareAll _ _, key_declareAll _ _, fun y => ?_⟩
  unfold withVariables
  rw [mem_names_declareAll]
  simp

theorem allocated_sectionScope (r : Resolver) (key : ScopeKey) (parts : List BlockTree) :
    ∃ numbers, Scope.Allocated r (withVariables r { key } parts) ((loopsOf parts).map (·.handle)) numbers
      (sectionScope r key parts) :=
  allocated_allocateAll r (withVariables_spec r key parts).2.1 _

theorem nodup_sectionScope (r : Resolver) (key : ScopeKey) (parts : List BlockTree) :
    (sectionScope r key parts).names.Nodup := by
  obtain ⟨numbers, h⟩ := allocated_sectionScope r key parts
  exact h.nodup_names (withVariables_spec r key parts).1

theorem key_sectionScope (r : Resolver) (key : ScopeKey) (parts : List BlockTree) :
    (sectionScope r key parts).key = key := by
  obtain ⟨numbers, h⟩ := allocated_sectionScope r key parts
  exact h.key.trans (withVariables_spec r key parts).2.2.1

theorem boundName_of_sectionScope {parts : List BlockTree} {h : Handle} {name : String}
    (hname : (sectionScope r key parts).auxiliaryName? h = some name) : ∃ k, name = boundName k := by
  obtain ⟨numbers, h⟩ := allocated_sectionScope r key parts
  obtain ⟨k, -, hk⟩ := h.number_of_auxiliaryName? hname
  exact ⟨k, hk⟩

theorem mem_sectionScope {parts : List BlockTree} {y : Name} : y ∈ (sectionScope r key parts).names
      ↔ (∃ v ∈ variablesOf parts, y = .text (r.spell .variable v))
        ∨ ∃ loop ∈ loopsOf parts, ∃ name,
          (sectionScope r key parts).auxiliaryName? loop.handle = some name ∧ y = .text name := by
  obtain ⟨numbers, h⟩ := allocated_sectionScope r key parts
  rw [h.names, mem_append, (withVariables_spec r key parts).2.2.2, mem_map]
  refine or_congr_right ⟨?_, ?_⟩
  · rintro ⟨k, hk, rfl⟩
    obtain ⟨x, hx, hname⟩ := h.exists_loop hk
    obtain ⟨loop, hloop, rfl⟩ := mem_map.mp hx
    exact ⟨loop, hloop, _, hname, rfl⟩
  · rintro ⟨loop, -, name, hname, rfl⟩
    obtain ⟨k, hk, rfl⟩ := h.number_of_auxiliaryName? hname
    exact ⟨k, hk, rfl⟩

theorem exists_boundName (r : Resolver) (key : ScopeKey) {parts : List BlockTree} {p : BlockTree} (hp : p ∈ parts)
    (hneeds : p.needsCounter = true) :
    ∃ k, (sectionScope r key parts).auxiliaryName? p.node.handle = some (boundName k) := by
  obtain ⟨numbers, h⟩ := allocated_sectionScope r key parts
  exact h.exists_number (mem_map_of_mem (mem_map_of_mem (mem_filter.mpr ⟨hp, hneeds⟩)))

theorem serves_sectionScope (r : Resolver) (key : ScopeKey) (parts : List BlockTree) :
    (sectionScope r key parts).Serves r parts where
  declared v hv := contains_iff.mpr (mem_sectionScope.mpr (.inl ⟨v, hv, rfl⟩))
  loops loop hloop := by
    obtain ⟨p, hp, rfl⟩ := mem_map.mp hloop
    obtain ⟨hp, hneeds⟩ := mem_filter.mp hp
    obtain ⟨k, hname⟩ := exists_boundName r key hp hneeds
    exact ⟨_, hname⟩

end NqcBlocks
