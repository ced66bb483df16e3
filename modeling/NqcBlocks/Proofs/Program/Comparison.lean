import NqcBlocks.Proofs.Graph.Respelling
import NqcBlocks.Proofs.Program.Emission

/-!
# Comparing two runs

Much that is said about a program compares two runs of the generator: on the same blocks, with other things
reported before; on blocks with other names; on what is left of the blocks without the disabled ones. A
`Comparison` says what the second run is on, which contexts of the two runs correspond at any time, and why the
second run may stop early. Two computations then are **related** if, started in contexts that correspond, they
come to outcomes and to contexts that correspond, or the second one stops early (`Comparison.Rel`).
-/

namespace NqcBlocks

open Gen Nqc List

variable {value value' : String → Order → Gen Expr}

def GenError.revise (φ : Node → Node) : GenError → GenError
  | .scope (.loopOutside loop) => .scope (.loopOutside (φ loop))
  | e => e

structure Context.SameView (c c' : Context) : Prop where
  indent : c'.options.indent = c.options.indent
  preamble : c'.options.preamble = c.options.preamble
  scope : c'.scope = c.scope

/-- **A way to compare two runs** of the generator, on blocks and on what a revision makes of them. -/
structure Comparison where
  revision : Revision
  spell : NameUse → String → String
  Pairs : Context → Context → Prop
  Fails : GenError → GenError → Prop
  Stops : GenError → Prop
  content : ∀ n, (revision.node n).content = (n.respell spell).content
  spell_ne : ∀ {use name}, name ≠ "" → spell use name ≠ ""
  value : ∀ {t}, revision.keepsValue t = false → t.node.enabled = false ∧ t.comments = pure ""
  statement : ∀ {t}, revision.keepsStatement t = false → t.node.enabled = false
  fails : ∀ e, Fails e (e.revise revision.node)
  view : ∀ {c c'}, Pairs c c' → c.SameView c'
  scope : ∀ {c c'}, Pairs c c' → ∀ scope, Pairs { c with scope } { c' with scope }
  note : ∀ {c c'}, Pairs c c' → ∀ note,
    Pairs { c with notes := c.notes ++ [note] } { c' with notes := c'.notes ++ [note] }
  allocate : ∀ {c c'}, Pairs c c' → ∀ (s : Scope) h, s.allocate h c'.names = s.allocate h c.names
  resolve : ∀ {c c'}, Pairs c c' → ∀ use name,
    (∃ cause, c'.names.resolve use (respellText (spell use) name) = .error cause
      ∧ Stops (.reserved cause))
    ∨ (∃ cause, c.names.resolve use name = .error cause
      ∧ c'.names.resolve use (respellText (spell use) name) = .error cause)
    ∨ ∃ new names names', c.names.resolve use name = .ok (new, names)
      ∧ c'.names.resolve use (respellText (spell use) name) = .ok (new, names')
      ∧ Pairs { c with names } { c' with names := names' }

namespace Comparison

theorem unspelled_ne {_use : NameUse} {name : String} : name ≠ "" → name ≠ "" := id

variable {L : Comparison} {α β γ δ : Type} {ρ : α → β → Prop} {σ : γ → δ → Prop}

/-! ## Related computations -/

inductive Agrees (L : Comparison) (ρ : α → β → Prop) : Except GenError α → Except GenError β → Prop
  | ok {a : α} {b : β} : ρ a b → Agrees L ρ (.ok a) (.ok b)
  | error {e e' : GenError} : L.Fails e e' → Agrees L ρ (.error e) (.error e')

def Rel (L : Comparison) (ρ : α → β → Prop) (x : Gen α) (y : Gen β) : Prop :=
  ∀ c c', L.Pairs c c' → (∃ e d, exec y c' = (.error e, d) ∧ L.Stops e)
    ∨ L.Agrees ρ (exec x c).1 (exec y c').1 ∧ L.Pairs (exec x c).2 (exec y c').2

namespace Rel

theorem pure {a : α} {b : β} (h : ρ a b) : L.Rel ρ (pure a) (pure b) :=
  fun _ _ hc => .inr ⟨.ok h, hc⟩

theorem throw (e : GenError) : L.Rel ρ (throw e : Gen α) (throw (e.revise L.revision.node) : Gen β) :=
  fun _ _ hc => .inr ⟨.error (L.fails e), hc⟩

variable {x : Gen α} {k : α → Gen γ} {y : Gen α}

theorem bind {y : Gen β} {l : β → Gen δ} (hx : L.Rel ρ x y)
    (hk : ∀ a b, ρ a b → L.Rel σ (k a) (l b)) : L.Rel σ (x >>= k) (y >>= l) := by
  intro c c' hc
  rcases hx c c' hc with ⟨e, d, hy, hstops⟩ | ⟨hagrees, hpairs⟩
  · exact .inl ⟨e, d, exec_bind_error hy, hstops⟩
  · rcases hexec : exec x c with ⟨o, d⟩
    rcases hexec' : exec y c' with ⟨o', d'⟩
    rw [hexec, hexec'] at hagrees hpairs
    cases hagrees with
    | ok hab =>
      rw [exec_bind_ok hexec, exec_bind_ok hexec']
      exact hk _ _ hab d d' hpairs
    | error he =>
      rw [exec_bind_error hexec, exec_bind_error hexec']
      exact .inr ⟨.error he, hpairs⟩

theorem mono {ρ' : α → β → Prop} {y : Gen β} (hx : L.Rel ρ x y) (h : ∀ a b, ρ a b → ρ' a b) :
    L.Rel ρ' x y := by
  intro c c' hc
  refine (hx c c' hc).imp_right (And.imp_left fun hagrees => ?_)
  revert hagrees
  generalize (exec x c).1 = o
  generalize (exec y c').1 = o'
  rintro (hab | he)
  · exact .ok (h _ _ hab)
  · exact .error he

theorem andThen {l : α → Gen δ} (hx : L.Rel Eq x y)
    (hk : ∀ a, L.Rel σ (k a) (l a)) : L.Rel σ (x >>= k) (y >>= l) :=
  hx.bind fun a _ hab => hab ▸ hk a

theorem get_bind {k : Context → Gen γ} {l : Context → Gen δ}
    (h : ∀ c c', c.SameView c' → L.Rel σ (k c) (l c')) : L.Rel σ (get >>= k) (get >>= l) := by
  intro c c' hc
  rw [exec_get_bind, exec_get_bind]
  exact h c c' (L.view hc) c c' hc

theorem map (hx : L.Rel Eq x y) (k : α → γ) : L.Rel Eq (k <$> x) (k <$> y) := by
  rw [map_eq_pure_bind, map_eq_pure_bind]
  exact hx.andThen fun a => .pure rfl

theorem discard (hx : L.Rel Eq x y) : L.Rel Eq (discard x) (discard y) := hx.map _

theorem modify {u u' : Context → Context} (h : ∀ {c c'}, L.Pairs c c' → L.Pairs (u c) (u' c')) :
    L.Rel Eq (modify u) (modify u') :=
  fun _ _ hc => .inr ⟨.ok rfl, h hc⟩

theorem mapM {ι : Type} {k l : ι → Gen α} (h : ∀ i, L.Rel Eq (k i) (l i)) : ∀ xs : List ι,
    L.Rel Eq (xs.mapM k) (xs.mapM l)
  | [] => by
    rw [mapM_nil, mapM_nil]
    exact .pure rfl
  | i :: xs => by
    rw [mapM_cons, mapM_cons]
    exact (h i).andThen fun a => (mapM h xs).andThen fun as => .pure rfl

end Rel

/-! ## Blocks -/

section Blocks

variable (L) (n : Node)

theorem kind_eq : (L.revision.node n).kind = n.kind := (congrArg Node.kind (L.content n) :)

theorem handle_eq : (L.revision.node n).handle = n.handle := (congrArg Node.handle (L.content n) :)

theorem enabled_eq : (L.revision.node n).enabled = n.enabled := (congrArg Node.enabled (L.content n) :)

theorem fields_eq : (L.revision.node n).fields = (n.respell L.spell).fields :=
  (congrArg Node.fields (L.content n) :)

theorem get?_field (field : String) :
    (L.revision.node n).fields.get? field = (n.fields.get? field).map (respellField L.spell field) := by
  rw [L.fields_eq, Node.get?_fields_respell]

theorem text_eq {field : String} (hfield : nameUse? field = none) :
    (L.revision.node n).text field = n.text field := by
  rw [← n.text_respell_of_none hfield]
  unfold Node.text
  rw [L.fields_eq]

theorem text_name {field : String} {use : NameUse} (hfield : nameUse? field = some use) :
    (L.revision.node n).text field = respellText (L.spell use) (n.text field) := by
  rw [← n.text_respell hfield]
  unfold Node.text
  rw [L.fields_eq]

theorem number_eq : (L.revision.node n).number "NUM" = n.number "NUM" := by
  rw [← n.number_respell]
  unfold Node.number
  rw [L.fields_eq]

theorem default_eq (slot : String) : (((L.revision.node n).valueSlots.get? slot).map (·.default)).getD ""
    = ((n.valueSlots.get? slot).map (·.default)).getD "" := by
  have hdefault : ∀ m : Node, (m.content.valueSlots.get? slot).map (·.default)
      = (m.valueSlots.get? slot).map (·.default) := by
    intro m
    rw [show m.content.valueSlots = m.bare.valueSlots from rfl, m.get?_valueSlots_bare, Option.map_map]
    rfl
  rw [← hdefault, L.content, hdefault]
  rfl

theorem length_valueSlots : (L.revision.node n).valueSlots.length = n.valueSlots.length := by
  have hlength : ∀ m : Node, m.content.valueSlots.length = m.valueSlots.length := fun _ => length_map _
  rw [← hlength, L.content, hlength]
  rfl

theorem contains_statementSlots (slot : String) :
    (L.revision.node n).statementSlots.contains slot = n.statementSlots.contains slot := by
  have hcontains : ∀ m : Node, m.content.statementSlots.contains slot = m.statementSlots.contains slot :=
    fun m => m.contains_statementSlots_bare slot
  rw [← hcontains, L.content, hcontains]
  rfl

end Blocks

/-! ## Steps -/

section Steps

variable (L)

theorem of_resolve {x y : Gen α} {use : NameUse} {name : String} {k : String → α}
    (hx : ∀ c, exec x c = match c.names.resolve use name with
      | .error cause => (.error (.reserved cause), c)
      | .ok (new, names) => (.ok (k new), { c with names }))
    (hy : ∀ c, exec y c = match c.names.resolve use (respellText (L.spell use) name) with
      | .error cause => (.error (.reserved cause), c)
      | .ok (new, names) => (.ok (k new), { c with names })) : L.Rel Eq x y := by
  intro c c' hc
  rw [hx, hy]
  rcases L.resolve hc use name with ⟨cause, h, hstops⟩ | ⟨cause, h, h'⟩ | ⟨new, names, names', h, h', hpairs⟩
  · rw [h]
    exact .inl ⟨_, _, rfl, hstops⟩
  · rw [h, h']
    exact .inr ⟨.error (L.fails _), hc⟩
  · rw [h, h']
    exact .inr ⟨.ok rfl, hpairs⟩

theorem rel_resolve (use : NameUse) (name : String) :
    L.Rel Eq (Gen.resolve use name) (Gen.resolve use (respellText (L.spell use) name)) :=
  L.of_resolve (exec_resolve use _) (exec_resolve use _)

theorem rel_resolveValue (use : NameUse) (value : Json) :
    L.Rel Eq (resolveValue use value) (resolveValue use (value.respell (L.spell use))) := by
  cases value with
  | text name => exact L.of_resolve (exec_resolveValue use _) (exec_resolveValue use _)
  | list | object => exact fun _ _ hc => .inr ⟨.error (L.fails _), hc⟩
  | null | bool | number => exact fun _ _ hc => .inr ⟨.ok rfl, hc⟩

theorem rel_setScope (scope : Option Scope) :
    L.Rel Eq (modify fun c => { c with scope }) (modify fun c => { c with scope }) :=
  .modify fun hc => L.scope hc scope

theorem rel_openScope (key : ScopeKey) : L.Rel Eq (openScope key) (openScope key) := by
  unfold openScope
  refine .get_bind fun c c' hc => ?_
  rw [hc.scope]
  cases c.scope with
  | none => exact L.rel_setScope _
  | some s => exact .throw _

theorem rel_closeScope : L.Rel Eq closeScope closeScope := by
  unfold closeScope
  refine .get_bind fun c c' hc => ?_
  rw [hc.scope]
  cases c.scope with
  | none => exact .throw _
  | some s => exact L.rel_setScope none

theorem rel_register (name : Name) : L.Rel Eq (register name) (register name) := by
  unfold register
  refine .get_bind fun c c' hc => ?_
  rw [hc.scope]
  cases c.scope with
  | none => exact .throw _
  | some s =>
    dsimp only
    -- registering fails for a name alone, not for a loop
    unfold Scope.register
    split
    · next hregister =>
      split at hregister
      · cases hregister
        exact .throw _
      · split at hregister <;> cases hregister
    · exact (L.rel_setScope _).andThen fun _ => .pure rfl

theorem rel_declarations (key : ScopeKey) (margin : String) :
    L.Rel Eq (declarations key margin) (declarations key margin) := by
  unfold declarations
  refine .get_bind fun c c' hc => ?_
  rw [hc.scope]
  cases c.scope with
  | none => exact .throw _
  | some s =>
    dsimp only
    split
    · exact .pure rfl
    · exact .throw _

theorem rel_ofGraph (outcome : Except GraphError α) : L.Rel Eq (ofGraph outcome) (ofGraph outcome) := by
  cases outcome with
  | ok a => exact .pure rfl
  | error cause => exact .throw _

theorem rel_useVariable (name : String) :
    L.Rel Eq (useVariable name) (useVariable (respellText (L.spell .variable) name)) :=
  (L.rel_resolve .variable name).andThen fun new => (L.rel_register new).discard.andThen fun _ => .pure rfl

theorem rel_useValue (value : Json) : L.Rel Eq (useValue value) (useValue (value.respell (L.spell .variable))) :=
  (L.rel_resolveValue .variable value).andThen fun new => (L.rel_register new).discard.andThen fun _ => .pure rfl

theorem rel_auxiliary (loop : Node) : L.Rel Eq (auxiliary loop) (auxiliary (L.revision.node loop)) := by
  intro c c' hc
  have hscope := (L.view hc).scope
  cases hs : c.scope with
  | none =>
    rw [exec_auxiliary_of_none hs, exec_auxiliary_of_none (hscope.trans hs)]
    exact .inr ⟨.error (L.fails _), hc⟩
  | some s =>
    rw [exec_auxiliary hs, exec_auxiliary (hscope.trans hs), L.handle_eq, L.allocate hc]
    exact .inr ⟨.ok rfl, L.scope hc _⟩

theorem rel_note (node : Handle) (text : String) : L.Rel Eq (Gen.note node text) (Gen.note node text) :=
  .modify fun hc => L.note hc ⟨node, text⟩

end Steps

/-! ## Remarks -/

section Trees

variable (L)

theorem commentLines_eq (n : Node) : (L.revision.node n).commentLines = n.commentLines := by
  have hcomment : (L.revision.node n).comment = n.comment := (congrArg Node.comment (L.content n) :)
  unfold Node.commentLines
  rw [hcomment, L.handle_eq]

theorem rel_commentLines (n : Node) : L.Rel Eq n.commentLines n.commentLines := by
  unfold Node.commentLines
  split
  · exact .pure rfl
  · exact .pure rfl
  · exact .throw _

mutual
theorem rel_comments : ∀ t : BlockTree, L.Rel Eq t.comments (t.revise L.revision).comments
  | .mk n attached operands bodies => by
    rw [BlockTree.comments, BlockTree.revise, BlockTree.comments, L.commentLines_eq]
    exact (L.rel_commentLines n).andThen fun own => (rel_operandComments operands).andThen fun inner => .pure rfl
theorem rel_operandComments : ∀ operands : Operands, L.Rel Eq
    (operandComments operands) (operandComments (reviseOperands L.revision operands))
  | [] => by
    rw [reviseOperands, operandComments]
    exact .pure rfl
  | (slot, none) :: rest => by
    rw [reviseOperands, operandComments, operandComments]
    exact rel_operandComments rest
  | (slot, some t) :: rest => by
    rw [reviseOperands, operandComments]
    cases hkept : L.revision.keepsValue t with
    | true =>
      rw [if_pos rfl, operandComments]
      exact (rel_comments t).andThen fun first => (rel_operandComments rest).andThen fun inner => .pure rfl
    | false =>
      rw [if_neg Bool.false_ne_true, operandComments, (L.value hkept).2]
      simpa only [pure_bind, String.empty_append, bind_pure] using rel_operandComments rest
end

/-! ## Collecting variables -/

theorem needsBound_eq (catalog : Catalog) (t : BlockTree) :
    needsBound catalog (t.revise L.revision) = needsBound catalog t := by
  have hcomputed : ∀ n, catalog.isComputed (L.revision.node n) = catalog.isComputed n := by
    intro n
    unfold Catalog.isComputed
    rw [L.enabled_eq, L.kind_eq]
  have hany : ∀ o : Option BlockTree, ((o.filter L.revision.keepsValue).map
      (BlockTree.revise L.revision)).any (fun b => catalog.isComputed b.node)
        = o.any fun b => catalog.isComputed b.node := by
    intro o
    cases o with
    | none => rfl
    | some b =>
      rw [Option.filter_some]
      cases hkept : L.revision.keepsValue b with
      | true => rw [if_pos rfl, Option.map_some, Option.any_some, Option.any_some, b.node_revise, hcomputed]
      | false =>
        rw [if_neg Bool.false_ne_true, Option.any_some, Catalog.isComputed, (L.value hkept).1]
        rfl
  unfold needsBound
  rw [t.node_revise, t.attached_revise, t.operands_revise, L.kind_eq, L.handle_eq]
  cases (catalog.spec? t.node.kind).bind (·.countedBound) with
  | none => rfl
  | some slot =>
    dsimp only
    rw [get?_reviseOperands]
    cases Table.get? slot t.operands with
    | none => rfl
    | some o =>
      rw [Option.map_some]
      dsimp only
      rw [hany]

def KnowsNames (catalog : Catalog) : Prop :=
  (∀ {kind spec field}, catalog.spec? kind = some spec → spec.variableField = some field →
    nameUse? field = some .variable) ∨ L.spell = fun _ name => name

variable {L} {catalog : Catalog}

theorem rel_registerVariableOf (hcat : L.KnowsNames catalog) {n : Node} {spec : BlockSpec}
    (hspec : catalog.spec? n.kind = some spec) :
    L.Rel Eq (registerVariableOf spec n) (registerVariableOf spec (L.revision.node n)) := by
  unfold registerVariableOf
  cases hfield : spec.variableField with
  | none => exact .pure rfl
  | some field =>
    have hvalue : ∀ value, respellField L.spell field value = value.respell (L.spell .variable) := by
      intro value
      unfold respellField
      rcases hcat with hcat | hid
      · rw [hcat hspec hfield]
      · rw [hid, Json.respell_id]
        split
        · rw [Json.respell_id]
        · rfl
    refine .get_bind fun c c' hc => ?_
    rw [hc.scope, L.get?_field, L.handle_eq]
    cases c.scope with
    | none => exact .throw _
    | some s =>
      cases n.fields.get? field with
      | none => exact .throw _
      | some value =>
        rw [Option.map_some, hvalue]
        exact (L.rel_useValue value).discard

variable (L) in
def SameLoops (loops loops' : List Node) : Prop := loops' = loops.map L.revision.node

theorem append {x x' y y' : Gen (List Node)} (hx : L.Rel L.SameLoops x y) (hx' : L.Rel L.SameLoops x' y') :
    L.Rel L.SameLoops (do let first ← x; return first ++ (← x')) (do let first ← y; return first ++ (← y')) := by
  refine hx.bind fun first first' hfirst => hx'.bind fun rest rest' hrest => .pure ?_
  rw [SameLoops, hfirst, hrest, map_append]

mutual
theorem rel_scanTree (hcat : L.KnowsNames catalog) : ∀ t : BlockTree, L.Rel L.SameLoops
    (scanTree catalog t) (scanTree catalog (t.revise L.revision))
  | .mk n attached operands bodies => by
    have hneeds := L.needsBound_eq catalog (.mk n attached operands bodies)
    rw [BlockTree.revise] at hneeds ⊢
    rw [scanTree, scanTree, hneeds, L.kind_eq]
    cases hspec : catalog.spec? n.kind with
    | none => exact .pure rfl
    | some spec =>
      refine (rel_registerVariableOf hcat hspec).andThen fun _ => (L.rel_ofGraph _).andThen fun own => ?_
      refine (rel_scanOperands hcat operands).bind fun inner inner' hinner => ?_
      refine (rel_scanBodies hcat bodies).bind fun nested nested' hnested => .pure ?_
      rw [SameLoops, hinner, hnested, map_append, map_append]
      cases own <;> rfl
theorem rel_scanOperands (hcat : L.KnowsNames catalog) : ∀ operands : Operands,
    L.Rel L.SameLoops (scanOperands catalog operands) (scanOperands catalog (reviseOperands L.revision operands))
  | [] => by
    rw [reviseOperands, scanOperands]
    exact .pure rfl
  | (slot, none) :: rest => by
    rw [reviseOperands, scanOperands, scanOperands]
    exact rel_scanOperands hcat rest
  | (slot, some t) :: rest => by
    rw [reviseOperands, scanOperands]
    cases hkept : L.revision.keepsValue t with
    | true =>
      rw [if_pos rfl, scanOperands, BlockTree.node_revise, L.enabled_eq]
      split
      · exact append (rel_scanTree hcat t) (rel_scanOperands hcat rest)
      · exact append (.pure rfl) (rel_scanOperands hcat rest)
    | false =>
      rw [if_neg Bool.false_ne_true, scanOperands, (L.value hkept).1]
      simpa using rel_scanOperands hcat rest
theorem rel_scanBodies (hcat : L.KnowsNames catalog) : ∀ bodies : Bodies,
    L.Rel L.SameLoops (scanBodies catalog bodies) (scanBodies catalog (reviseBodies L.revision bodies))
  | [] => by
    rw [reviseBodies, scanBodies]
    exact .pure rfl
  | (slot, chain) :: rest => by
    rw [reviseBodies, scanBodies, scanBodies]
    exact append (rel_scanChain hcat chain) (rel_scanBodies hcat rest)
theorem rel_scanChain (hcat : L.KnowsNames catalog) : ∀ chain : List BlockTree,
    L.Rel L.SameLoops (scanChain catalog chain) (scanChain catalog (reviseChain L.revision chain))
  | [] => by
    rw [reviseChain, scanChain]
    exact .pure rfl
  | t :: rest => by
    rw [reviseChain, scanChain]
    cases hkept : L.revision.keepsStatement t with
    | true =>
      rw [if_pos rfl, scanChain, BlockTree.node_revise, L.enabled_eq]
      split
      · exact append (rel_scanTree hcat t) (rel_scanChain hcat rest)
      · exact append (.pure rfl) (rel_scanChain hcat rest)
    | false =>
      rw [if_neg Bool.false_ne_true, L.statement hkept]
      simpa using rel_scanChain hcat rest
end

variable (L) in
theorem rel_allocateBounds : ∀ loops : List Node, L.Rel Eq (allocateBounds loops)
    (allocateBounds (loops.map L.revision.node))
  | [] => .pure rfl
  | loop :: rest => by
    rw [map_cons, allocateBounds, allocateBounds]
    refine .get_bind fun c c' hc => ?_
    rw [hc.scope]
    cases c.scope with
    | none => exact .throw _
    | some s => exact (L.rel_auxiliary loop).discard.andThen fun _ => rel_allocateBounds rest

end Trees

end Comparison

theorem scanChain_append (catalog : Catalog) (chain' : List BlockTree) : ∀ chain : List BlockTree,
    scanChain catalog (chain ++ chain') = (do
      let first ← scanChain catalog chain
      return first ++ (← scanChain catalog chain'))
  | [] => by
    rw [nil_append, scanChain]
    simp
  | t :: chain => by
    rw [cons_append, scanChain, scanChain, scanChain_append catalog chain' chain]
    split <;> simp only [bind_assoc, pure_bind, append_assoc]

theorem prescan_eq (catalog : Catalog) (chains : List (List BlockTree)) :
    prescan catalog chains = scanChain catalog chains.flatten >>= allocateBounds := by
  have hflatten : ∀ chains : List (List BlockTree),
      (do return (← chains.mapM (scanChain catalog)).flatten) = scanChain catalog chains.flatten := by
    intro chains
    induction chains with
    | nil =>
      rw [flatten_nil, scanChain]
      rfl
    | cons chain chains ih =>
      rw [flatten_cons, scanChain_append, ← ih, mapM_cons]
      simp
  unfold prescan
  rw [← hflatten]
  simp

theorem BlockTree.code_of_disabled (catalog : Catalog) {t : BlockTree} (h : t.node.enabled = false) :
    t.code catalog = pure [] := by
  obtain ⟨n, attached, operands, bodies⟩ := t
  rw [BlockTree.code, if_neg (by rw [show n.enabled = false from h]; exact Bool.false_ne_true)]

namespace Comparison

variable {L : Comparison} {catalog : Catalog}

theorem rel_prescan (hcat : L.KnowsNames catalog) {chains chains' : List (List BlockTree)}
    (h : chains'.flatten = reviseChain L.revision chains.flatten) :
    L.Rel Eq (prescan catalog chains) (prescan catalog chains') := by
  rw [prescan_eq, prescan_eq, h]
  exact (rel_scanChain hcat chains.flatten).bind fun loops loops' hloops => hloops ▸ L.rel_allocateBounds loops

/-! ## Values -/

theorem rel_slotCode (n : Node) (attached : Bool) {operands : Operands}
    (h : ∀ {slot t}, (slot, some t) ∈ operands → L.Rel Eq t.valueCode (t.revise L.revision).valueCode)
    (slot : String) (required : Order) :
    L.Rel Eq (slotCode n attached (occupantsOf operands) slot required)
      (slotCode (L.revision.node n) attached (occupantsOf (reviseOperands L.revision operands)) slot required) := by
  unfold slotCode
  rw [L.handle_eq, L.kind_eq, L.default_eq]
  cases attached with
  | false => exact .throw _
  | true =>
    rw [get?_occupantsOf, get?_occupantsOf, get?_reviseOperands]
    rcases hslot : Table.get? slot operands with _ | _ | t
    · exact .throw _
    · exact .pure rfl
    · cases hkept : L.revision.keepsValue t with
      | true =>
        simp only [Option.map_some, Option.filter_some, hkept, if_true, BlockTree.node_revise, L.enabled_eq,
          L.handle_eq]
        cases t.node.enabled with
        | false => exact .pure rfl
        | true =>
          refine (h (Table.mem_of_get? hslot)).andThen fun code => ?_
          split
          · exact (L.rel_note _ _).andThen fun _ => .pure rfl
          · exact .pure rfl
      | false =>
        simp only [Option.map_some, Option.filter_some, hkept, (L.value hkept).1]
        exact .pure rfl

theorem rel_valueCode (n : Node) (h : ∀ slot required, L.Rel Eq (value slot required) (value' slot required)) :
    L.Rel Eq (valueCode n value) (valueCode (L.revision.node n) value') := by
  have hbinary : ∀ op, L.Rel Eq (binaryCode value op) (binaryCode value' op) := fun op =>
    (h "A" op.order).andThen fun left => (h "B" op.order).andThen fun right => .pure rfl
  unfold valueCode
  rw [L.kind_eq, L.handle_eq, L.number_eq, L.text_eq n (by decide : nameUse? "BOOL" = none),
    L.text_eq n (by decide : nameUse? "SENSOR" = none), L.text_eq n (by decide : nameUse? "OP" = none),
    L.text_name n (by decide : nameUse? "VAR" = some .variable)]
  cases n.kind
  case variableGet => exact (L.rel_useVariable _).andThen fun name => .pure rfl
  case arithmetic | compare | logic => exact hbinary _
  case negate | group => exact (h _ _).andThen fun operand => .pure rfl
  case number | percent | boolean | touchValue | lightValue | rotationValue | temperatureValue =>
    exact .pure rfl
  all_goals exact .throw _

mutual
theorem rel_treeValue : ∀ t : BlockTree, L.Rel Eq t.valueCode (t.revise L.revision).valueCode
  | .mk n attached operands bodies => by
    rw [BlockTree.valueCode, BlockTree.revise, BlockTree.valueCode]
    exact rel_valueCode n fun slot required => rel_slotCode n attached (rel_operandValue operands) slot required
theorem rel_operandValue : ∀ (operands : Operands) {slot : String} {t : BlockTree},
    (slot, some t) ∈ operands → L.Rel Eq t.valueCode (t.revise L.revision).valueCode
  | [], _, _, h => by cases h
  | (slot, none) :: rest, _, _, h => by
    rcases mem_cons.mp h with h | h
    · cases h
    · exact rel_operandValue rest h
  | (slot, some t) :: rest, _, _, h => by
    rcases mem_cons.mp h with h | h
    · cases h
      exact rel_treeValue t
    · exact rel_operandValue rest h
end

/-! ## Statements -/

theorem rel_armsCode {body body' : String → Gen (List Stmt)}
    (hvalue : ∀ slot required, L.Rel Eq (value slot required) (value' slot required))
    (hbody : ∀ slot, L.Rel Eq (body slot) (body' slot)) (count : Nat) :
    L.Rel Eq (armsCode value body count) (armsCode value' body' count) :=
  .mapM (fun _ => (hvalue _ _).andThen fun _ => (hbody _).andThen fun _ => .pure rfl) _

theorem rel_statementCode (n : Node) {needs needs' : Gen Bool}
    {body body' : String → Gen (List Stmt)} (hneeds : L.Rel Eq needs needs')
    (hvalue : ∀ slot required, L.Rel Eq (value slot required) (value' slot required))
    (hbody : ∀ slot, L.Rel Eq (body slot) (body' slot)) :
    L.Rel Eq (statementCode n needs value body) (statementCode (L.revision.node n) needs' value' body') := by
  have hexpression := rel_valueCode n hvalue
  unfold statementCode
  rw [L.kind_eq, L.length_valueSlots, L.contains_statementSlots,
    L.text_eq n (by decide : nameUse? "MOTOR" = none), L.text_eq n (by decide : nameUse? "DIRECTION" = none),
    L.text_eq n (by decide : nameUse? "SOUND" = none), L.text_eq n (by decide : nameUse? "SENSOR" = none),
    L.text_name n (by decide : nameUse? "VAR" = some .variable),
    L.text_name n (by decide : nameUse? "NAME" = some .task)]
  cases n.kind
  case motorOnWithPower | setPower | waitSeconds | waitUntil =>
    exact (hvalue _ _).andThen fun e => .pure rfl
  case motorOn | motorOff | setDirection | playSound | touchSensorSetup | lightSensorSetup
      | rotationSensorSetup | temperatureSensorSetup => exact .pure rfl
  case repeatTimes =>
    refine hneeds.andThen fun needed => ?_
    split
    · exact (L.rel_auxiliary n).andThen fun counter => (hvalue _ _).andThen fun bound =>
        (hbody _).andThen fun statements => .pure rfl
    · exact (hvalue _ _).andThen fun times => (hbody _).andThen fun statements => .pure rfl
  case repeatForever => exact (hbody _).andThen fun statements => .pure rfl
  case repeatUntil =>
    exact (hbody _).andThen fun statements => (hvalue _ _).andThen fun condition => .pure rfl
  case variableSet =>
    exact (L.rel_useVariable _).andThen fun name => (hvalue _ _).andThen fun assigned => .pure rfl
  case conditional =>
    refine (rel_armsCode hvalue hbody _).andThen fun arms => ?_
    split
    · exact ((hbody "ELSE").map some).andThen fun otherwise => .pure rfl
    · exact .pure rfl
  case startTask | stopTask => exact (L.rel_resolve .task _).andThen fun name => .pure rfl
  all_goals exact hexpression.andThen fun e => .pure rfl

theorem rel_bodyCode (n : Node) (attached : Bool) {bodies : Bodies}
    (h : ∀ {slot chain}, (slot, chain) ∈ bodies →
      L.Rel Eq (chainCode catalog chain) (chainCode catalog (reviseChain L.revision chain)))
    (slot : String) :
    L.Rel Eq (bodyCode n attached (bodiesCode catalog bodies) slot) (bodyCode (L.revision.node n) attached
        (bodiesCode catalog (reviseBodies L.revision bodies)) slot) := by
  unfold bodyCode
  rw [L.handle_eq, L.kind_eq]
  cases attached with
  | false => exact .throw _
  | true =>
    rw [get?_bodiesCode, get?_bodiesCode, get?_reviseBodies]
    rcases hslot : Table.get? slot bodies with _ | chain
    · exact .throw _
    · exact h (Table.mem_of_get? hslot)

mutual
theorem rel_code : ∀ t : BlockTree, L.Rel Eq (t.code catalog) ((t.revise L.revision).code catalog)
  | .mk n attached operands bodies => by
    have hcomments := L.rel_comments (.mk n attached operands bodies)
    have hneeds := L.needsBound_eq catalog (.mk n attached operands bodies)
    rw [BlockTree.revise] at hcomments hneeds ⊢
    rw [BlockTree.code, BlockTree.code, hneeds, L.enabled_eq]
    split
    · refine hcomments.andThen fun comments => ?_
      exact (rel_statementCode n (L.rel_ofGraph _) (rel_slotCode n attached (rel_operandValue operands))
        (rel_bodyCode n attached (rel_bodyChain bodies))).andThen fun statements => .pure rfl
    · exact .pure rfl
theorem rel_bodyChain : ∀ (bodies : Bodies) {slot : String} {chain : List BlockTree},
    (slot, chain) ∈ bodies → L.Rel Eq (chainCode catalog chain) (chainCode catalog (reviseChain L.revision chain))
  | [], _, _, h => by cases h
  | (slot, chain) :: rest, _, _, h => by
    rcases mem_cons.mp h with h | h
    · cases h
      exact rel_chainCode chain
    · exact rel_bodyChain rest h
theorem rel_chainCode : ∀ chain : List BlockTree,
    L.Rel Eq (chainCode catalog chain) (chainCode catalog (reviseChain L.revision chain))
  | [] => by
    rw [reviseChain, chainCode]
    exact .pure rfl
  | t :: rest => by
    rw [reviseChain, chainCode]
    cases hkept : L.revision.keepsStatement t with
    | true =>
      rw [if_pos rfl, chainCode]
      exact (rel_code t).andThen fun first => (rel_chainCode rest).andThen fun others => .pure rfl
    | false =>
      rw [if_neg Bool.false_ne_true, BlockTree.code_of_disabled catalog (L.statement hkept)]
      simpa using rel_chainCode rest
end

/-! ## The plan -/

section Plan

variable {g g' : Graph}

theorem place (hcat : g'.catalog = g.catalog) (p : Plan) (seen : List Name) {n n' : Node}
    (hcontent : n'.content = (n.respell L.spell).content) :
    L.Rel Eq (Plan.place g p seen n) (Plan.place g' p seen n') := by
  have hfields : n'.fields = (n.respell L.spell).fields := (congrArg Node.fields hcontent :)
  have hname : Plan.nameOf? n' = (Plan.nameOf? n).map (Json.respell (L.spell .task)) := by
    unfold Plan.nameOf?
    rw [hfields, Node.get?_fields_respell]
    cases n.fields.get? "NAME" with
    | none => rfl
    | some value => exact Json.truthy?_respell (fun s hs => L.spell_ne hs) value
  unfold Plan.place Graph.spec?
  rw [hname, hcat, show n'.enabled = n.enabled from (congrArg Node.enabled hcontent :),
    show n'.kind = n.kind from (congrArg Node.kind hcontent :),
    show n'.handle = n.handle from (congrArg Node.handle hcontent :)]
  split
  · exact .pure rfl
  · split
    · split <;> exact .pure rfl
    · cases Plan.nameOf? n with
      | none => exact .pure rfl
      | some value =>
        refine (L.rel_resolveValue .task value).andThen fun name => ?_
        split <;> exact .pure rfl
    · exact .pure rfl

theorem placeAll (hcat : g'.catalog = g.catalog) : ∀ (ns ns' : List Node) (p : Plan) (seen : List Name),
    ns'.map Node.content = ns.map (fun n => (n.respell L.spell).content) →
      L.Rel Eq (Plan.placeAll g p seen ns) (Plan.placeAll g' p seen ns')
  | [], ns', p, seen, h => by
    rw [map_eq_nil_iff.mp h, Plan.placeAll, Plan.placeAll]
    exact .pure rfl
  | n :: ns, [], p, seen, h => by cases h
  | n :: ns, n' :: ns', p, seen, h => by
    rw [map_cons, map_cons] at h
    obtain ⟨hcontent, hrest⟩ := List.cons.inj h
    rw [Plan.placeAll, Plan.placeAll]
    exact (place hcat p seen hcontent).andThen fun x => placeAll hcat ns ns' x.1 x.2 hrest

theorem plan (hcat : g'.catalog = g.catalog)
    (htops : g'.topBlocks.map Node.content = g.topBlocks.map fun n => (n.respell L.spell).content) :
    L.Rel Eq (Plan.ofGraph g) (Plan.ofGraph g') :=
  placeAll hcat _ _ _ _ htops

end Plan

end Comparison

/-! ## Reports -/

def Context.told (c : Context) : Context :=
  { c with notes := [], reports := c.reports ++ c.notes.map fun n => .warn n.node n.text }

theorem Gen.exec_tellNotes (c : Context) :
    exec (do for n in ← takeNotes do emit (.warn n.node n.text)) c = (.ok (), c.told) := by
  refine (exec_bind_ok rfl).trans ?_
  exact exec_bind_ok (exec_forIn_emit (fun n : CodeNote => .warn n.node n.text) c.notes { c with notes := [] })

namespace Comparison

open Generation

variable {L : Comparison} {catalog : Catalog} {g g' : Graph}

/-- **What a comparison has to know about reports**: they are made alike in both runs, and one about a
statement that is not kept may as well not be made. -/
structure Reporting (L : Comparison) : Prop where
  emit : ∀ {c c'}, L.Pairs c c' → ∀ {report : CodeReport}, report.warning = none →
    L.Pairs { c with reports := c.reports ++ [report] } { c' with reports := c'.reports ++ [report] }
  tell : ∀ {c c'}, L.Pairs c c' → L.Pairs c.told c'.told
  pass : ∀ {t}, L.revision.keepsStatement t = false → ∀ {c c'}, L.Pairs c c' →
    ∀ {report : CodeReport}, report.warning = none → report.newCode = none →
      L.Pairs ({ c with reports := c.reports ++ [report] } : Context).told c'

namespace Reporting

theorem report (hL : L.Reporting) {report : CodeReport} (hquiet : report.warning = none) :
    L.Rel Eq (Gen.emit report) (Gen.emit report) :=
  .modify fun hc => hL.emit hc hquiet

theorem emitBlock (hL : L.Reporting) (margin : String) (t : BlockTree) :
    L.Rel Eq (Generation.emitBlock catalog margin t) (Generation.emitBlock catalog margin (t.revise L.revision)) := by
  have htell : L.Rel Eq (do for n in ← takeNotes do Gen.emit (.warn n.node n.text))
      (do for n in ← takeNotes do Gen.emit (.warn n.node n.text)) := by
    intro c c' hc
    rw [exec_tellNotes, exec_tellNotes]
    exact .inr ⟨.ok rfl, hL.tell hc⟩
  unfold Generation.emitBlock
  refine (rel_code t).andThen fun statements => .get_bind fun c c' hc => ?_
  rw [hc.indent, BlockTree.node_revise, L.enabled_eq, L.handle_eq, L.kind_eq]
  dsimp only
  split
  · exact (hL.report rfl).andThen fun _ => htell
  · exact (hL.report rfl).andThen fun _ => htell

theorem emitBlock_pass (hL : L.Reporting) (margin : String) {t : BlockTree}
    (hkept : L.revision.keepsStatement t = false) :
    L.Rel Eq (Generation.emitBlock catalog margin t) (pure ()) := by
  have hpass : ∀ report : CodeReport, report.warning = none → report.newCode = none → L.Rel Eq (do
        Gen.emit report
        for n in ← takeNotes do Gen.emit (.warn n.node n.text)) (pure ()) := by
    intro report hquiet hcode c c' hc
    rw [exec_bind_ok (x := Gen.emit report) rfl, exec_tellNotes]
    exact .inr ⟨.ok rfl, hL.pass hkept hc hquiet hcode⟩
  have hdis := L.statement hkept
  intro c c' hc
  unfold Generation.emitBlock
  rw [BlockTree.code_of_disabled catalog hdis, pure_bind, exec_get_bind]
  simp only [hdis]
  exact hpass _ rfl rfl c c' hc

theorem emitChains (hL : L.Reporting) (margin : String) {chains chains' : List (List BlockTree)}
    (h : chains'.flatten = reviseChain L.revision chains.flatten) :
    L.Rel Eq (Generation.emitChains catalog margin chains) (Generation.emitChains catalog margin chains') := by
  unfold Generation.emitChains
  rw [h]
  induction chains.flatten with
  | nil => exact .pure rfl
  | cons t ts ih =>
    rw [reviseChain]
    cases hkept : L.revision.keepsStatement t with
    | true => exact (hL.emitBlock margin t).andThen fun _ => ih
    | false => exact (hL.emitBlock_pass margin hkept).andThen fun _ => ih

end Reporting

/-! ## Sections -/

structure SameChains (L : Comparison) (g g' : Graph) (heads heads' : List Handle) : Prop where
  prescan : L.Rel Eq (prescan g.catalog (chainsOf g heads))
    (prescan g'.catalog (chainsOf g' heads'))
  emit : ∀ margin, L.Rel Eq (emitChains g.catalog margin (chainsOf g heads))
    (emitChains g'.catalog margin (chainsOf g' heads'))

theorem Reporting.sameChains (hL : L.Reporting) (hknows : L.KnowsNames g.catalog)
    (hcat : g'.catalog = g.catalog) {heads heads' : List Handle}
    (h : (chainsOf g' heads').flatten = reviseChain L.revision (chainsOf g heads).flatten) :
    L.SameChains g g' heads heads' where
  prescan := hcat ▸ rel_prescan hknows h
  emit margin := hcat ▸ hL.emitChains margin h

/-- **Tasks of two graphs that come to the same.** -/
structure SameTask (L : Comparison) (g g' : Graph) (t t' : TaskHead) : Prop where
  name : t'.name = t.name
  key : t'.key = t.key
  root : t'.root = t.root
  remark : (t'.root.bind g'.lastState?).map Node.commentLines
    = (t.root.bind g.lastState?).map Node.commentLines
  chains : L.SameChains g g' t.heads t'.heads

theorem taskHead {root : Handle} (hstate : ((g'.lastState? root).getD { handle := root, kind := .mainTask }).content
      = (((g.lastState? root).getD { handle := root, kind := .mainTask }).respell L.spell).content)
    (hhead : ∀ name key, L.Rel (L.SameTask g g') (do
        let body ← ofGraph (g.statementTarget root "STATEMENTS")
        pure { name, key, root := some root, heads := (body.map (·.handle)).toList : TaskHead })
      (do
        let body ← ofGraph (g'.statementTarget root "STATEMENTS")
        pure { name, key, root := some root, heads := (body.map (·.handle)).toList })) :
    L.Rel (L.SameTask g g') (Generation.taskHead g root) (Generation.taskHead g' root) := by
  unfold Generation.taskHead
  revert hstate
  generalize (g.lastState? root).getD { handle := root, kind := .mainTask } = n
  generalize (g'.lastState? root).getD { handle := root, kind := .mainTask } = n'
  intro hstate
  have hfields : n'.fields = (n.respell L.spell).fields := (congrArg Node.fields hstate :)
  dsimp only
  rw [show n'.kind = n.kind from (congrArg Node.kind hstate :), hfields, Node.get?_fields_respell]
  split
  · exact hhead _ _
  · cases n.fields.get? "NAME" with
    | none => exact .throw _
    | some value => exact (L.rel_resolveValue .task value).andThen fun name => hhead _ _

/-- **What has to be known about a section** of two graphs. -/
inductive SameSection (L : Comparison) (g g' : Graph) : Section → Prop
  | preamble (text : String) : SameSection L g g' (.preamble text)
  | global {loose : List Handle} : L.SameChains g g' loose loose → SameSection L g g' (.global loose)
  | task {root : Handle} :
    L.Rel (L.SameTask g g') (Generation.taskHead g root) (Generation.taskHead g' root) →
      SameSection L g g' (.task root)
  | main {loose : List Handle} : L.SameChains g g' loose loose → SameSection L g g' (.main loose)

namespace Reporting

theorem emitGlobalHeader (hL : L.Reporting) {loose : List Handle} (h : L.SameChains g g' loose loose) :
    L.Rel Eq (Generation.emitGlobalHeader g loose) (Generation.emitGlobalHeader g' loose) :=
  (L.rel_openScope _).andThen fun _ => h.prescan.andThen fun _ =>
    (L.rel_declarations _ _).andThen fun _ => hL.report rfl

theorem emitTaskHeader (hL : L.Reporting) {t t' : TaskHead} (h : L.SameTask g g' t t') :
    L.Rel Eq (Generation.emitTaskHeader g t) (Generation.emitTaskHeader g' t') := by
  have hremark := h.remark
  unfold Generation.emitTaskHeader
  rw [h.name, h.key]
  refine (L.rel_openScope _).andThen fun _ => h.chains.prescan.andThen fun _ => ?_
  have hrest : ∀ comment : String, L.Rel Eq
      (do
        let declarations ← declarations t.key (← get).options.indent
        Gen.emit
          { node := t.root
            message := if t.root.isSome then "Generating task " ++ t.name ++ "."
              else "No main task found: generating task main from loose blocks."
            newCode := comment ++ "task " ++ t.name ++ "()\n\x7b\n" ++ declarations })
      (do
        let declarations ← declarations t.key (← get).options.indent
        Gen.emit
          { node := t'.root
            message := if t'.root.isSome then "Generating task " ++ t.name ++ "."
              else "No main task found: generating task main from loose blocks."
            newCode := comment ++ "task " ++ t.name ++ "()\n\x7b\n" ++ declarations }) := by
    intro comment
    refine .get_bind fun c c' hc => ?_
    rw [hc.indent, h.root]
    exact (L.rel_declarations _ _).andThen fun _ => hL.report rfl
  cases hn : t.root.bind g.lastState? with
  | none =>
    rw [hn, Option.map_none, Option.map_eq_none_iff] at hremark
    rw [hremark]
    dsimp only
    rw [pure_bind, pure_bind]
    exact hrest ""
  | some n =>
    rw [hn, Option.map_some] at hremark
    obtain ⟨n', hn', hlines⟩ := Option.map_eq_some_iff.mp hremark
    simp only [hn', hlines]
    exact (L.rel_commentLines n).andThen hrest

theorem emitTask (hL : L.Reporting) {t t' : TaskHead} (h : L.SameTask g g' t t') :
    L.Rel Eq (Generation.emitTask g t) (Generation.emitTask g' t') := by
  unfold Generation.emitTask emitTaskEnd
  refine (hL.emitTaskHeader h).andThen fun _ => .get_bind fun c c' hc => ?_
  rw [hc.indent, h.root, h.name]
  exact (h.chains.emit _).andThen fun _ => L.rel_closeScope.andThen fun _ => hL.report rfl

theorem emitSection (hL : L.Reporting) {sec : Section} (h : L.SameSection g g' sec) :
    L.Rel Eq (Generation.emitSection g sec) (Generation.emitSection g' sec) := by
  cases h with
  | preamble text => exact hL.report rfl
  | global h =>
    exact (hL.emitGlobalHeader h).andThen fun _ => (h.emit _).andThen fun _ => L.rel_closeScope
  | task h => exact h.bind fun t t' ht => hL.emitTask ht
  | main h => exact hL.emitTask ⟨rfl, rfl, rfl, rfl, h⟩

theorem emitSections (hL : L.Reporting) : ∀ {ss : List Section}, (∀ sec ∈ ss, L.SameSection g g' sec) →
      L.Rel Eq (Generation.emitSections g ss) (Generation.emitSections g' ss)
  | [], _ => .pure rfl
  | [sec], hss => hL.emitSection (hss sec mem_cons_self)
  | sec :: _ :: _, hss =>
    (hL.emitSection (hss sec mem_cons_self)).andThen fun _ => (hL.report rfl).andThen fun _ =>
      hL.emitSections fun s hs => hss s (mem_cons_of_mem _ hs)

end Reporting

end Comparison

/-! ## Programs -/

namespace Generation

def emitPlan (g : Graph) (p : Plan) : Gen Unit := do
  Gen.emit (startReport p)
  for (h, reason) in p.skipped do
    Gen.emit (.warn h reason)
  emitSections g (sections (← get).options p)
  Gen.emit endReport

def emitPlanned (g : Graph) : Gen Unit := Plan.ofGraph g >>= emitPlan g

theorem exec_emitPlan (g : Graph) (p : Plan) (c : Context) : exec (emitPlan g p) c
      = exec (do emitSections g (sections c.options p); Gen.emit endReport)
        { c with reports := c.reports ++ (startReport p :: p.skipped.map fun x => .warn x.1 x.2) } := by
  have hskipped := exec_forIn_emit (fun x : Handle × String => .warn x.1 x.2) p.skipped
    { c with reports := c.reports ++ [startReport p] }
  rw [append_assoc] at hskipped
  exact (exec_bind_ok rfl).trans (exec_bind_ok hskipped)

end Generation

end NqcBlocks
