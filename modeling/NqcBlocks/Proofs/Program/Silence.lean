import NqcBlocks.Proofs.Program.Comparison

/-!
# Reports and the rest of a context

The reports that have been made have no influence on what is generated. A run in which other things have been
reported is compared with one in which they have not (`Gen.besides`). A computation is **silent** if it neither
makes reports nor looks at them (`Gen.Silent`): collecting variables, making the plan and composing the code of
a block are. It is **framed** if it adds to the reports and treats the rest of the context as it would without
any (`Gen.Framed`): everything that reports is. And it is a **report** if, moreover, all that can fail in it
comes before the first thing it reports (`Gen.Reports`): so is each step of a program that is generated report
by report, though not the program as a whole.
-/

namespace NqcBlocks

open Nqc List

theorem GenError.revise_id (e : GenError) : e.revise id = e := by
  unfold GenError.revise
  split <;> rfl

namespace Gen

variable {α β : Type}

def besides (f : List CodeReport → List CodeReport) (notes : List CodeNote := []) : Comparison where
  revision := .ofNode id
  spell := fun _ name => name
  Pairs := fun c c' => c' = { c with notes := notes ++ c.notes, reports := f c.reports }
  Fails := fun e e' => e' = e
  Stops := fun _ => False
  content := fun n => by rw [n.respell_id]; rfl
  spell_ne := @Comparison.unspelled_ne
  value := fun h => by cases h
  statement := fun h => by cases h
  fails := GenError.revise_id
  view := by
    rintro c _ rfl
    exact ⟨rfl, rfl, rfl⟩
  scope := by
    rintro c _ rfl scope
    rfl
  note := by
    rintro c _ rfl note
    exact congrArg (fun notes => { c with notes, reports := f c.reports }) (List.append_assoc ..)
  allocate := by
    rintro c _ rfl s h
    rfl
  resolve := by
    rintro c _ rfl use name
    rw [respellText_id]
    cases c.names.resolve use name with
    | error cause => exact .inr (.inl ⟨cause, rfl, rfl⟩)
    | ok answer => exact .inr (.inr ⟨answer.1, answer.2, answer.2, rfl, rfl, rfl⟩)

variable {f : List CodeReport → List CodeReport} {x : Gen α}

theorem exec_of_besides {notes : List CodeNote}
    (hx : (besides f notes).Rel Eq x x) (c : Context) :
    exec x { c with notes := notes ++ c.notes, reports := f c.reports } = ((exec x c).1,
      { (exec x c).2 with notes := notes ++ (exec x c).2.notes, reports := f (exec x c).2.reports }) := by
  rcases hx c _ rfl with ⟨_, _, _, hstops⟩ | ⟨hagrees, hpairs⟩
  · exact hstops.elim
  · refine Prod.ext ?_ hpairs
    revert hagrees
    generalize (exec x c).1 = o
    generalize (exec x { c with notes := notes ++ c.notes, reports := f c.reports }).1 = o'
    intro hagrees
    cases hagrees with
    | ok h => rw [h]
    | error h => rw [show _ = _ from h]

/-! ## Silent computations -/

def Silent (x : Gen α) : Prop := ∀ f, (besides f).Rel Eq x x

namespace Silent

variable {x : Gen α} {k : α → Gen β}

theorem pure (a : α) : Silent (pure a : Gen α) := fun _ => .pure rfl

theorem bind (hx : Silent x) (hk : ∀ a, Silent (k a)) : Silent (x >>= k) :=
  fun f => (hx f).andThen fun a => hk a f

theorem reports_eq (hx : Silent x) (c : Context) : (exec x c).2.reports = c.reports :=
  congrArg (fun p => p.2.reports) (exec_of_besides (hx fun _ => c.reports) c)

end Silent

/-! ## Framed computations -/

/-- **A computation is framed** if it only adds to the reports, and does so in the same way whatever has
been reported. -/
def Framed (x : Gen α) : Prop := ∀ f, (∀ l l', f (l ++ l') = f l ++ l') → (besides f).Rel Eq x x

theorem Silent.framed (hx : Silent x) : Framed x := fun f _ => hx f

namespace Framed

variable {x : Gen α} {k : α → Gen β}

theorem exec_eq (hx : Framed x) (c : Context) (reports : List CodeReport) :
    exec x { c with reports } = ((exec x { c with reports := [] }).1,
      { (exec x { c with reports := [] }).2 with
        reports := reports ++ (exec x { c with reports := [] }).2.reports }) := by
  have h := exec_of_besides (hx (reports ++ ·) fun _ _ => (append_assoc ..).symm)
    { c with reports := [] }
  rwa [append_nil] at h

theorem pure (a : α) : Framed (pure a : Gen α) := (Silent.pure a).framed

theorem bind (hx : Framed x) (hk : ∀ a, Framed (k a)) : Framed (x >>= k) :=
  fun f hf => (hx f hf).andThen fun a => hk a f hf

theorem get_bind {k : Context → Gen β} (hk : ∀ c, Framed (k c))
    (hsame : ∀ c reports, k { c with reports } = k c) : Framed (get >>= k) := by
  rintro f hf c _ rfl
  rw [exec_get_bind, exec_get_bind, nil_append, hsame]
  exact hk c f hf c _ rfl

theorem length_le (hx : Framed x) (c : Context) : c.reports.length ≤ (exec x c).2.reports.length := by
  have h : exec x c = _ := hx.exec_eq c c.reports
  rw [h, length_append]
  exact Nat.le_add_right _ _

theorem forM {k : α → Gen Unit} (hk : ∀ a, Framed (k a)) : ∀ l : List α, Framed (l.forM k)
  | [] => .pure ()
  | a :: l => (hk a).bind fun _ => forM hk l

theorem forIn {k : α → Gen Unit} (hk : ∀ a, Framed (k a)) : ∀ l : List α, Framed (forIn l PUnit.unit fun a _ => do
      k a
      Pure.pure (ForInStep.yield PUnit.unit))
  | [] => .pure _
  | a :: l => by
    rw [forIn_cons]
    simp only [bind_assoc, pure_bind]
    exact (hk a).bind fun _ => forIn hk l

end Framed

theorem reporting_besides (hf : ∀ l l', f (l ++ l') = f l ++ l') :
    (besides f).Reporting where
  emit := by
    rintro c _ rfl report -
    exact congrArg (fun reports => { c with reports }) (hf _ _).symm
  tell := by
    rintro c _ rfl
    exact congrArg (fun reports => { c with notes := [], reports }) (hf _ _).symm
  pass := fun h => by cases h

theorem framed_emit (r : CodeReport) : Framed (emit r) := by
  refine fun f hf => .modify ?_
  rintro c _ rfl
  exact congrArg (fun reports => { c with reports }) (hf _ _).symm

/-! ## Reports -/

def Sure (x : Gen α) : Prop := ∀ c, ∃ a d, exec x c = (.ok a, d)

namespace Sure

theorem pure (a : α) : Sure (pure a : Gen α) := fun c => ⟨a, c, rfl⟩

theorem get_bind {f : Context → Gen β} (hf : ∀ c, Sure (f c)) : Sure (get >>= f) := by
  intro c
  rw [exec_get_bind]
  exact hf c c

end Sure

/-- **A computation is a report** if it fails before it has reported anything, and has reported something
when it completes. -/
structure Reports (x : Gen α) : Prop where
  framed : Framed x
  late : ∀ c e d, exec x c = (.error e, d) → d.reports = c.reports
  tells : ∀ c a d, exec x c = (.ok a, d) → c.reports.length < d.reports.length

theorem reports_emit (r : CodeReport) : Reports (emit r) where
  framed := framed_emit r
  late := by
    intro c e d h
    cases h
  tells := by
    intro c a d h
    cases h
    simp

theorem exec_bind_cases {f : α → Gen β} {c d : Context} {o : Except GenError β}
    (h : exec (x >>= f) c = (o, d)) : (∃ e, o = .error e ∧ exec x c = (.error e, d))
      ∨ ∃ a c', exec x c = (.ok a, c') ∧ exec (f a) c' = (o, d) := by
  rcases hexec : exec x c with ⟨o', c'⟩
  cases o' with
  | error e =>
    rw [exec_bind_error hexec] at h
    cases h
    exact .inl ⟨e, rfl, rfl⟩
  | ok a =>
    rw [exec_bind_ok hexec] at h
    exact .inr ⟨a, c', rfl, h⟩

theorem Silent.bind_reports {f : α → Gen β} (hx : Silent x) (hf : ∀ a, Reports (f a)) :
    Reports (x >>= f) := by
  refine ⟨hx.framed.bind fun a => (hf a).framed, fun c e d h => ?_, fun c b d h => ?_⟩
  · have hreports := hx.reports_eq c
    obtain ⟨e', -, hexec⟩ | ⟨a, c', hexec, hrest⟩ := exec_bind_cases h
    · rwa [hexec] at hreports
    · rw [hexec] at hreports
      exact ((hf a).late c' e d hrest).trans hreports
  · have hreports := hx.reports_eq c
    obtain ⟨e', he', -⟩ | ⟨a, c', hexec, hrest⟩ := exec_bind_cases h
    · cases he'
    · rw [hexec] at hreports
      exact hreports ▸ (hf a).tells c' b d hrest

namespace Reports

variable {x : Gen α}

theorem bind_sure {f : α → Gen β} (hx : Reports x) (hframed : ∀ a, Framed (f a))
    (hsure : ∀ a, Sure (f a)) : Reports (x >>= f) := by
  refine ⟨hx.framed.bind hframed, fun c e d h => ?_, fun c b d h => ?_⟩
  · obtain ⟨e', -, hexec⟩ | ⟨a, c', -, hrest⟩ := exec_bind_cases h
    · exact hx.late c e' d hexec
    · obtain ⟨b, d', hok⟩ := hsure a c'
      rw [hok] at hrest
      cases hrest
  · obtain ⟨e', he', -⟩ | ⟨a, c', hexec, hrest⟩ := exec_bind_cases h
    · cases he'
    · have hle := (hframed a).length_le c'
      rw [hrest] at hle
      exact Nat.lt_of_lt_of_le (hx.tells c a c' hexec) hle

theorem get_bind {f : Context → Gen β} (hf : ∀ c, Reports (f c))
    (hsame : ∀ c reports, f { c with reports } = f c) : Reports (get >>= f) where
  framed := .get_bind (fun c => (hf c).framed) hsame
  late := fun c e d h => (hf c).late c e d ((exec_get_bind f c).symm.trans h)
  tells := fun c b d h => (hf c).tells c b d ((exec_get_bind f c).symm.trans h)

end Reports

/-! ## Steps -/

theorem silent_openScope (key : ScopeKey) : Silent (openScope key) := fun f => (besides f).rel_openScope key

theorem silent_closeScope : Silent closeScope := fun f => (besides f).rel_closeScope

theorem silent_declarations (key : ScopeKey) (margin : String) : Silent (declarations key margin) :=
  fun f => (besides f).rel_declarations key margin

theorem silent_resolveValue (use : NameUse) (value : Json) : Silent (resolveValue use value) := by
  intro f
  have h := (besides f).rel_resolveValue use value
  rwa [show (besides f).spell use = fun name => name from rfl, Json.respell_id] at h

theorem silent_begin (g : Graph) : Silent (begin g) := by
  intro f
  unfold begin
  split
  · refine .modify ?_
    rintro c _ rfl
    rfl
  · exact .throw _

end Gen

open Gen

theorem Node.silent_commentLines (n : Node) : Silent n.commentLines := fun f => (besides f).rel_commentLines n

theorem silent_prescan (catalog : Catalog) (chains : List (List BlockTree)) : Silent (prescan catalog chains) :=
  fun _ => Comparison.rel_prescan (.inr rfl) (reviseChain_id _).symm

theorem BlockTree.silent_code (catalog : Catalog) (t : BlockTree) : Silent (t.code catalog) := by
  intro f
  have h : (besides f).Rel Eq (t.code catalog) ((t.revise (.ofNode id)).code catalog) := Comparison.rel_code t
  rwa [t.revise_id] at h

theorem Plan.silent_ofGraph (g : Graph) : Silent (ofGraph g) := by
  refine fun f => Comparison.plan rfl (map_congr_left fun n _ => ?_)
  rw [show (besides f).spell = fun _ name => name from rfl, n.respell_id]

theorem Generation.silent_taskHead (g : Graph) (root : Handle) : Silent (taskHead g root) := by
  have hgraph : ∀ {α} (x : Except GraphError α), Silent (Gen.ofGraph x) := fun x f => (besides f).rel_ofGraph x
  unfold taskHead
  dsimp only
  split
  · exact (hgraph _).bind fun _ => .pure _
  · split
    · exact fun _ => .throw _
    · exact (silent_resolveValue .task _).bind fun _ => (hgraph _).bind fun _ => .pure _

/-! ## Reporting -/

namespace Generation

theorem framed_tellNotes : Framed (do for n in ← Gen.takeNotes do Gen.emit (.warn n.node n.text)) := by
  rintro f hf c _ rfl
  rw [exec_tellNotes, exec_tellNotes]
  exact .inr ⟨.ok rfl, (reporting_besides hf).tell rfl⟩

theorem sure_tellNotes : Sure (do for n in ← Gen.takeNotes do Gen.emit (.warn n.node n.text)) :=
  fun c => ⟨(), c.told, exec_tellNotes c⟩

theorem reports_emitBlock (catalog : Catalog) (margin : String) (t : BlockTree) :
    Reports (emitBlock catalog margin t) := by
  unfold emitBlock
  refine (t.silent_code catalog).bind_reports fun statements => .get_bind (fun c => ?_) fun _ _ => rfl
  dsimp only
  split
  · exact (reports_emit _).bind_sure (fun _ => framed_tellNotes) fun _ => sure_tellNotes
  · exact (reports_emit _).bind_sure (fun _ => framed_tellNotes) fun _ => sure_tellNotes

theorem reports_emitGlobalHeader (g : Graph) (loose : List Handle) : Reports (emitGlobalHeader g loose) :=
  (silent_openScope .global).bind_reports fun _ =>
    (silent_prescan g.catalog (chainsOf g loose)).bind_reports fun _ =>
      (silent_declarations .global "").bind_reports fun _ => reports_emit _

theorem reports_emitTaskHeader (g : Graph) (t : TaskHead) : Reports (emitTaskHeader g t) := by
  unfold emitTaskHeader
  refine (silent_openScope t.key).bind_reports fun _ =>
    (silent_prescan g.catalog (chainsOf g t.heads)).bind_reports fun _ => ?_
  have hrest : ∀ comment : String, Reports (do
      let declarations ← Gen.declarations t.key (← get).options.indent
      Gen.emit
        { node := t.root
          message := if t.root.isSome then "Generating task " ++ t.name ++ "."
            else "No main task found: generating task main from loose blocks."
          newCode := comment ++ "task " ++ t.name ++ "()\n\x7b\n" ++ declarations }) :=
    fun comment => .get_bind
      (fun c => (silent_declarations t.key c.options.indent).bind_reports fun _ => reports_emit _)
      fun _ _ => rfl
  cases t.root.bind g.lastState? with
  | none =>
    dsimp only
    rw [pure_bind]
    exact hrest ""
  | some n => exact n.silent_commentLines.bind_reports hrest

theorem reports_emitTaskEnd (t : TaskHead) : Reports (emitTaskEnd t) :=
  silent_closeScope.bind_reports fun _ => reports_emit _

theorem framed_emitSection (g : Graph) (s : Section) : Framed (emitSection g s) := by
  intro f hf
  have hL := reporting_besides hf
  have hchains : ∀ heads, (besides f).SameChains g g heads heads := fun _ =>
    hL.sameChains (.inr rfl) rfl (reviseChain_id _).symm
  refine hL.emitSection ?_
  cases s with
  | preamble text => exact .preamble text
  | global loose => exact .global (hchains loose)
  | task root =>
    refine .task ((silent_taskHead g root f).mono ?_)
    rintro t _ rfl
    exact ⟨rfl, rfl, rfl, rfl, hchains _⟩
  | main loose => exact .main (hchains loose)

theorem framed_emitSections (g : Graph) : ∀ ss : List Section, Framed (emitSections g ss)
  | [] => .pure ()
  | [s] => framed_emitSection g s
  | s :: s' :: rest => (framed_emitSection g s).bind fun _ => (framed_emit _).bind fun _ =>
      framed_emitSections g (s' :: rest)

theorem framed_emitProgram (g : Graph) : Framed (emitProgram g) := by
  unfold emitProgram
  refine (silent_begin g).framed.bind fun _ => (Plan.silent_ofGraph g).framed.bind fun p =>
    (framed_emit _).bind fun _ => ?_
  refine (Framed.forIn (fun x : Handle × String => framed_emit (.warn x.1 x.2)) p.skipped).bind fun _ =>
    .get_bind (fun c => ?_) fun _ _ => rfl
  exact (framed_emitSections g _).bind fun _ => framed_emit _

end Generation

end NqcBlocks
