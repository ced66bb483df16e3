import Mathlib.Data.Set.Insert
import NqcBlocks.Proofs.Program.Scope

/-!
# How computations on a context end

Generating code can end in three ways only, and this module is the logic to say so.
`Gen.Ends g r x c U a c'` says of a computation `x` that starts in the context `c`: either the policy
allows every name in `U`, and it completes with the value `a` in the context `c'`; or it stops with a
refusal of one of the names in `U` that the policy does not allow; or it stops for a block of the graph
whose remark is no text. `U` is the set of names the computation resolves, each with what it is the
name of.
-/

namespace NqcBlocks

open List Gen Resolver

variable {s : Scope} {name : String} {c : Context}

def ReservedPolicy.Allows (p : ReservedPolicy) (u : ReservedNameError) : Prop :=
  p = .rename ∨ u.use.forbids u.name = false

def Node.HasOddRemark (n : Node) : Prop :=
  ∃ j, n.comment.bind Json.truthy? = some j ∧ j.text? = none

theorem eq_ok_of_toOption {ε α : Type} {x : Except ε α} {a : α} (h : x.toOption = some a) : x = .ok a := by
  cases x with
  | error e => cases h
  | ok b => exact congrArg _ (Option.some.inj h)

namespace Gen

variable {α β : Type}

/-! ## Running a computation -/

def exec (x : Gen α) (c : Context) : Except GenError α × Context := x.run.run c

@[simp] theorem exec_pure (a : α) (c : Context) : exec (pure a) c = (.ok a, c) := rfl

@[simp] theorem exec_throw (e : GenError) (c : Context) :
    exec (throw e : Gen α) c = (.error e, c) := rfl

@[simp] theorem exec_get (c : Context) : exec get c = (.ok c, c) := rfl

@[simp] theorem exec_modify (f : Context → Context) (c : Context) :
    exec (modify f) c = (.ok (), f c) := rfl

@[simp] theorem exec_set (c c' : Context) : exec (set c') c = (.ok (), c') := rfl

theorem exec_bind (x : Gen α) (f : α → Gen β) (c : Context) : exec (x >>= f) c = match exec x c with
    | (.ok a, c') => exec (f a) c'
    | (.error e, c') => (.error e, c') := by
  unfold exec
  rw [ExceptT.run_bind, StateT.run_bind]
  rcases StateT.run (ExceptT.run x) c with ⟨r, c'⟩
  cases r <;> rfl

theorem exec_bind_ok {x : Gen α} {f : α → Gen β} {c' : Context} {a : α} (h : exec x c = (.ok a, c')) :
    exec (x >>= f) c = exec (f a) c' := by
  rw [exec_bind, h]

theorem exec_bind_error {x : Gen α} {f : α → Gen β} {c' : Context} {e : GenError}
    (h : exec x c = (.error e, c')) : exec (x >>= f) c = (.error e, c') := by
  rw [exec_bind, h]

@[simp] theorem exec_get_bind (f : Context → Gen β) (c : Context) :
    exec (get >>= f) c = exec (f c) c := exec_bind_ok rfl

theorem exec_resolve (use : NameUse) (name : String) (c : Context) :
    exec (resolve use name) c = match c.names.resolve use name with
      | .error cause => (.error (.reserved cause), c)
      | .ok (new, names) => (.ok new, { c with names }) := by
  unfold resolve
  rw [exec_get_bind]
  cases c.names.resolve use name <;> rfl

theorem exec_resolveValue (use : NameUse) (name : String) (c : Context) :
    exec (resolveValue use (.text name)) c = match c.names.resolve use name with
      | .error cause => (.error (.reserved cause), c)
      | .ok (new, names) => (.ok (.text new), { c with names }) := by
  unfold resolveValue
  rw [exec_get_bind, show nameOf (.text name) = pure (.text name) from rfl, pure_bind]
  unfold resolveName
  dsimp only
  cases c.names.resolve use name <;> rfl

theorem exec_auxiliary (hs : c.scope = some s) (loop : Node) :
    exec (auxiliary loop) c = (.ok (s.allocate loop.handle c.names).1,
      { c with scope := some (s.allocate loop.handle c.names).2 }) := by
  unfold auxiliary
  rw [exec_get_bind]
  dsimp only
  rw [hs]
  rfl

theorem exec_auxiliary_of_none (hs : c.scope = none) (loop : Node) :
    exec (auxiliary loop) c = (.error (.scope (.loopOutside loop)), c) := by
  unfold auxiliary
  rw [exec_get_bind]
  dsimp only
  rw [hs]
  rfl

theorem exec_forIn_emit {ι : Type} (report : ι → CodeReport) : ∀ (xs : List ι) (c : Context),
    exec (forIn xs PUnit.unit fun x _ => do
        emit (report x)
        pure (ForInStep.yield PUnit.unit)) c
      = (.ok PUnit.unit, { c with reports := c.reports ++ xs.map report })
  | [], c => by
    rw [forIn_nil, map_nil, append_nil]
    rfl
  | x :: xs, c => by
    have hrest := exec_forIn_emit report xs { c with reports := c.reports ++ [report x] }
    rw [append_assoc] at hrest
    rw [forIn_cons, bind_assoc]
    exact (exec_bind_ok rfl).trans hrest

/-! ## Ends -/

/-- **How a computation ends** in a context, up to what has been renamed: with a value and a context, if
all names that it resolves are allowed; with a refusal of one that is not; or with a complaint about a
remark. If it fails, it has reported the beginning of what it would have reported. -/
def Ends (g : Graph) (r : Resolver) (x : Gen α) (c : Context) (uses : Set ReservedNameError) (a : α)
    (c' : Context) : Prop :=
  ∀ names, r.Sound names → c.reports <+: c'.reports ∧ (((∀ u ∈ uses, r.policy.Allows u)
      ∧ ∃ names', r.Sound names' ∧ exec x { c with names } = (.ok a, { c' with names := names' }))
    ∨ (∃ u ∈ uses, ¬ r.policy.Allows u
      ∧ ∃ d, exec x { c with names } = (.error (.reserved u), d) ∧ d.reports <+: c'.reports)
    ∨ ∃ n, g.get? n.handle = some n ∧ n.HasOddRemark
      ∧ ∃ d, exec x { c with names } = (.error (.defect (.commentNotText n.handle)), d) ∧ d.reports <+: c'.reports)

namespace Ends

variable {g : Graph} {r : Resolver} {x : Gen α} {f : α → Gen β} {c' c'' : Context}
  {U V : Set ReservedNameError} {a : α} {b : β}

theorem of_exec (h : ∀ names, exec x { c with names } = (.ok a, { c' with names }))
    (hreports : c.reports <+: c'.reports) : Ends g r x c ∅ a c' :=
  fun names hnames => ⟨hreports, .inl ⟨fun u hu => absurd hu (Set.notMem_empty u), names, hnames, h names⟩⟩

theorem pure (a : α) (c : Context) : Ends g r (pure a) c ∅ a c := of_exec (fun _ => rfl) prefix_rfl

theorem bind (hx : Ends g r x c U a c') (hf : Ends g r (f a) c' V b c'') : Ends g r (x >>= f) c (U ∪ V) b c'' := by
  intro names hnames
  obtain ⟨hreports, hx⟩ := hx names hnames
  obtain ⟨hmore, -⟩ := hf names hnames
  refine ⟨hreports.trans hmore, ?_⟩
  rcases hx with ⟨hU, names', hnames', hexec⟩ | ⟨u, hu, hnot, d, hexec, hd⟩ | ⟨n, hn, hodd, d, hexec, hd⟩
  · rcases (hf names' hnames').2 with ⟨hV, names'', hnames'', hexec'⟩ | ⟨u, hu, hnot, d, hexec', hd⟩
      | ⟨n, hn, hodd, d, hexec', hd⟩
    · exact .inl ⟨fun u hu => hu.elim (hU u) (hV u), names'', hnames'', (exec_bind_ok hexec).trans hexec'⟩
    · exact .inr (.inl ⟨u, .inr hu, hnot, d, (exec_bind_ok hexec).trans hexec', hd⟩)
    · exact .inr (.inr ⟨n, hn, hodd, d, (exec_bind_ok hexec).trans hexec', hd⟩)
  · exact .inr (.inl ⟨u, .inl hu, hnot, d, exec_bind_error hexec, hd.trans hmore⟩)
  · exact .inr (.inr ⟨n, hn, hodd, d, exec_bind_error hexec, hd.trans hmore⟩)

theorem congr_uses (hx : Ends g r x c U a c') (hUV : U = V) : Ends g r x c V a c' := hUV ▸ hx

theorem bind_step (hx : Ends g r x c ∅ a c') (hf : Ends g r (f a) c' U b c'') :
    Ends g r (x >>= f) c U b c'' := (hx.bind hf).congr_uses (Set.empty_union U)

theorem bind_last (hx : Ends g r x c U a c') (hf : Ends g r (f a) c' ∅ b c'') :
    Ends g r (x >>= f) c U b c'' := (hx.bind hf).congr_uses (Set.union_empty U)

theorem map {k : α → β} (hx : Ends g r x c U a c') : Ends g r (k <$> x) c U (k a) c' := by
  rw [map_eq_pure_bind]
  exact hx.bind_last (.pure (k a) c')

theorem discard (hx : Ends g r x c U a c') : Ends g r (discard x) c U () c' := hx.map

theorem get_bind {f : Context → Gen β} (hf : ∀ names, r.Sound names → Ends g r (f { c with names }) c U b c') :
    Ends g r (get >>= f) c U b c' := by
  intro names hnames
  rw [exec_get_bind]
  exact hf names hnames names hnames

theorem eq_of_ok (hx : Ends g r x c U a c') {names : Resolver} (hnames : r.Sound names) {a' : α}
    {d : Context} (h : exec x { c with names } = (.ok a', d)) :
    (∀ u ∈ U, r.policy.Allows u) ∧ a' = a ∧ ∃ names', d = { c' with names := names' } := by
  rcases (hx names hnames).2 with ⟨hU, names', -, hexec⟩ | ⟨u, -, -, d', hexec, -⟩ | ⟨n, -, -, d', hexec, -⟩
  · rw [h] at hexec
    injection hexec with ha hd
    injection ha with ha
    exact ⟨hU, ha, names', hd⟩
  · rw [h] at hexec
    cases hexec
  · rw [h] at hexec
    cases hexec

end Ends

/-! ## Names -/

section Names

variable {g : Graph} {r : Resolver}

theorem not_allows_iff {p : ReservedPolicy} {u : ReservedNameError} :
    ¬ p.Allows u ↔ u.use.forbids u.name = true ∧ p = .reject := by
  unfold ReservedPolicy.Allows
  rw [not_or, Bool.not_eq_false, and_comm]
  refine and_congr_right fun _ => ?_
  cases p <;> simp

theorem ends_of_resolve {x : Gen α} {use : NameUse} {k : String → α}
    (h : ∀ names, exec x { c with names } = match names.resolve use name with
      | .error cause => (.error (.reserved cause), { c with names })
      | .ok (new, names') => (.ok (k new), { c with names := names' })) :
    Ends g r x c {⟨name, use⟩} (k (r.spell use name)) c := by
  intro names hnames
  refine ⟨prefix_rfl, ?_⟩
  have hres := hnames.resolve use name
  rw [h]
  by_cases hbad : use.forbids name = true ∧ r.policy = .reject
  · rw [if_pos hbad] at hres
    rw [hres]
    exact .inr (.inl ⟨⟨name, use⟩, rfl, not_allows_iff.mpr hbad, _, rfl, prefix_rfl⟩)
  · rw [if_neg hbad] at hres
    obtain ⟨names', hnames', hres⟩ := hres
    rw [hres]
    refine .inl ⟨fun u hu => ?_, names', hnames', rfl⟩
    rw [Set.mem_singleton_iff.mp hu]
    exact not_not.mp fun h => hbad (not_allows_iff.mp h)

theorem ends_resolve (use : NameUse) (name : String) :
    Ends g r (resolve use name) c {⟨name, use⟩} (r.spell use name) c := by
  exact ends_of_resolve (k := id) fun names => exec_resolve use name _

theorem ends_resolveValue (use : NameUse) (name : String) :
    Ends g r (resolveValue use (.text name)) c {⟨name, use⟩} (.text (r.spell use name)) c := by
  exact ends_of_resolve fun names => exec_resolveValue use name _

theorem ends_register (hs : c.scope = some s) (hne : name ≠ "") :
    Ends g r (register name) c ∅ (!s.contains name) { c with scope := some (s.declare name) } := by
  refine .of_exec (fun names => ?_) prefix_rfl
  unfold register
  rw [exec_get_bind]
  dsimp only
  rw [hs]
  dsimp only
  rw [s.register_eq hne]
  rfl

theorem spell_ne_empty {use : NameUse} (hne : name ≠ "") : r.spell use name ≠ "" := by
  unfold spell
  split
  · intro h
    have hnil := congrArg String.toList h
    unfold freshName suffixed at hnil
    rw [String.toList_append] at hnil
    have hname : name.toList = "".toList := (append_eq_nil_iff.mp hnil).1
    exact hne (String.toList_injective hname)
  · exact hne

theorem ends_useVariable (hs : c.scope = some s) (hne : name ≠ "")
    (hdecl : s.contains (r.spell .variable name) = true) :
    Ends g r (useVariable name) c {⟨name, .variable⟩} (r.spell .variable name) c := by
  have hspell : r.spell .variable name ≠ "" := spell_ne_empty hne
  have hregister := ends_register (g := g) (r := r) hs hspell
  rw [Scope.declare_of_contains hdecl, ← hs] at hregister
  unfold useVariable
  exact (ends_resolve .variable name).bind_last (hregister.discard.bind_step (.pure _ _))

theorem ends_useValue (hs : c.scope = some s) (hne : name ≠ "") :
    Ends g r (useValue (.text name)) c {⟨name, .variable⟩} (.text (r.spell .variable name))
      { c with scope := some (s.declare (r.spell .variable name)) } := by
  unfold useValue
  exact (ends_resolveValue .variable name).bind_last
    ((ends_register hs (spell_ne_empty hne)).discard.bind_step (.pure _ _))

end Names

/-! ## Scopes, notes and reports -/

section Steps

variable {g : Graph} {r : Resolver}

theorem ends_auxiliary (hs : c.scope = some s) {loop : Node}
    (h : s.auxiliaryName? loop.handle = some name) : Ends g r (auxiliary loop) c ∅ name c := by
  refine .of_exec (fun names => ?_) prefix_rfl
  rw [exec_auxiliary (c := { c with names }) hs, Scope.allocate_of_auxiliaryName? h, ← hs]

theorem ends_allocate (hs : c.scope = some s) (loop : Node) :
    Ends g r (auxiliary loop) c ∅ (s.allocate loop.handle r).1
      { c with scope := some (s.allocate loop.handle r).2 } := by
  refine fun names hnames => ⟨prefix_rfl, .inl ⟨fun u hu => absurd hu (Set.notMem_empty u), names, hnames, ?_⟩⟩
  rw [exec_auxiliary (c := { c with names }) hs, Scope.allocate_congr hnames]

theorem ends_emit (report : CodeReport) : Ends g r (emit report) c ∅ () { c with reports := c.reports ++ [report] } :=
  .of_exec (fun _ => rfl) (prefix_append _ _)

theorem ends_note (node : Handle) (text : String) :
    Ends g r (note node text) c ∅ () { c with notes := c.notes ++ [⟨node, text⟩] } :=
  .of_exec (fun _ => rfl) prefix_rfl

theorem ends_takeNotes : Ends g r takeNotes c ∅ c.notes { c with notes := [] } :=
  .of_exec (fun _ => rfl) prefix_rfl

theorem ends_openScope (hs : c.scope = none) (key : ScopeKey) :
    Ends g r (openScope key) c ∅ () { c with scope := some { key } } := by
  refine .of_exec (fun names => ?_) prefix_rfl
  unfold openScope
  rw [exec_get_bind]
  dsimp only
  rw [hs]
  rfl

theorem ends_closeScope (hs : c.scope = some s) : Ends g r closeScope c ∅ () { c with scope := none } := by
  refine .of_exec (fun names => ?_) prefix_rfl
  unfold closeScope
  rw [exec_get_bind]
  dsimp only
  rw [hs]
  rfl

theorem ends_declarations (hs : c.scope = some s) (margin : String) :
    Ends g r (declarations s.key margin) c ∅ (s.declarations margin) c := by
  refine .of_exec (fun names => ?_) prefix_rfl
  unfold declarations
  rw [exec_get_bind]
  dsimp only
  rw [hs]
  dsimp only
  rw [if_pos rfl]
  rfl

theorem ends_ofGraph {x : Except GraphError α} {a : α} (h : x = .ok a) : Ends g r (ofGraph x) c ∅ a c := by
  rw [h]
  exact .pure a c

end Steps

end Gen

end NqcBlocks
