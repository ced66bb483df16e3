import NqcBlocks.Proofs.Program.Silence

/-!
# A program report by report

Generating a program report by report comes to the same as generating it at once. Each item of an
agenda stands for a computation (`emitItem`), the one for `.plan` being the whole program, and doing an
item leaves exactly the items that its computation goes on with (`emitItem_eq`). What a run still has to
report is therefore known at every moment (`CodeRun.rest`): what is pending, and what the agenda comes
to. It is the whole program to begin with (`rest_start`), and asking for a report takes its first one
off (`rest_of_step`).
-/

namespace NqcBlocks

open Gen Generation List

def Gen.outcome (x : Gen Unit) (c : Context) : List CodeReport × Option GenError :=
  match exec x c with
  | (.ok (), d) => (d.reports, none)
  | (.error e, d) => (d.reports, some e)

theorem Gen.outcome_error {x : Gen Unit} {c d : Context} {e : GenError}
    (h : exec x c = (.error e, d)) : outcome x c = (d.reports, some e) := by
  rw [outcome, h]

theorem Gen.Framed.outcome_eq {x : Gen Unit} (hx : Framed x) (c : Context) :
    outcome x c = (c.reports ++ (outcome x { c with reports := [] }).1, (outcome x { c with reports := [] }).2) := by
  have h : exec x c = _ := hx.exec_eq c c.reports
  unfold outcome
  rw [h]
  rcases exec x { c with reports := [] } with ⟨o, d⟩
  cases o <;> rfl

/-! ## What the items stand for -/

namespace CodeRun

variable {g : Graph}

def emitItem (g : Graph) : AgendaItem → Gen Unit
  | .plan => emitProgram g
  | .report r => Gen.emit r
  | .openSection s => emitSection g s
  | .visit node margin => (g.headTrees node).forM (emitBlock g.catalog margin)
  | .advance node margin =>
    (g.trees ((g.lastState? node).bind (·.next))).forM (emitBlock g.catalog margin)
  | .closeGlobal => Gen.closeScope
  | .closeTask t => emitTaskEnd t

def emitItems (g : Graph) (agenda : List AgendaItem) : Gen Unit := agenda.forM (emitItem g)

theorem emitItems_cons (item : AgendaItem) (agenda : List AgendaItem) :
    emitItems g (item :: agenda) = emitItem g item >>= fun _ => emitItems g agenda := rfl

theorem emitItems_append (items agenda : List AgendaItem) :
    emitItems g (items ++ agenda) = emitItems g items >>= fun _ => emitItems g agenda :=
  forM_append

theorem emitItems_singleton (item : AgendaItem) : emitItems g [item] = emitItem g item := by
  rw [emitItems_cons]
  exact bind_pure_comp _ _ |>.trans (id_map _)

theorem bind_emitItems_nil (x : Gen Unit) : x = (x >>= fun _ => pure ([] : List AgendaItem)) >>= emitItems g := by
  rw [bind_assoc]
  exact ((bind_pure_comp _ _).trans (id_map x)).symm

theorem framed_emitItems (agenda : List AgendaItem) : Framed (emitItems g agenda) := by
  refine .forM (fun item => ?_) agenda
  cases item with
  | plan => exact framed_emitProgram g
  | report r => exact framed_emit r
  | openSection s => exact framed_emitSection g s
  | visit | advance => exact .forM (fun t => (reports_emitBlock _ _ t).framed) _
  | closeGlobal => exact silent_closeScope.framed
  | closeTask t => exact (reports_emitTaskEnd t).framed

/-! ## Doing an item -/

theorem emitItems_visits (margin : String) (heads : List Handle) :
    emitItems g (heads.map (.visit · margin)) = emitChains g.catalog margin (chainsOf g heads) := by
  induction heads with
  | nil => rfl
  | cons h heads ih =>
    rw [map_cons, emitItems_cons, ih]
    exact forM_append.symm

theorem emitItems_sectionItems : ∀ ss : List Section, emitItems g (sectionItems ss) = emitSections g ss
  | [] => rfl
  | [s] => emitItems_singleton (.openSection s)
  | s :: s' :: rest => by
    show emitSection g s >>= (fun _ => emitSeparator >>= fun _ =>
      emitItems g (sectionItems (s' :: rest))) = _
    rw [emitItems_sectionItems (s' :: rest)]
    rfl

theorem emitItems_reports {α : Type} (report : α → CodeReport) (l : List α) :
    emitItems g (l.map fun a => .report (report a)) = (do for a in l do Gen.emit (report a)) := by
  induction l with
  | nil => rfl
  | cons a l ih =>
    rw [map_cons, emitItems_cons, ih]
    simp only [forIn_cons, bind_assoc, pure_bind]
    rfl

theorem get_bind_emitItems {α β : Type} (report : α → CodeReport) (k : Options → Gen β) (l : List α) :
    (get >>= fun c : Context => emitItems g (l.map fun a => .report (report a)) >>= fun _ => k c.options)
      = emitItems g (l.map fun a => .report (report a)) >>= fun _ =>
        get >>= fun c : Context => k c.options := by
  induction l with
  | nil => rfl
  | cons a l ih =>
    rw [map_cons, emitItems_cons]
    simp only [bind_assoc]
    rw [← ih]
    rfl

theorem planItems_eq : emitProgram g = planItems g >>= emitItems g := by
  unfold emitProgram planItems
  simp only [bind_assoc, pure_bind, emitItems_append, emitItems_singleton, emitItems_sectionItems]
  refine congrArg _ (funext fun _ => congrArg _ (funext fun p => congrArg _ (funext fun _ => ?_)))
  have hitems := emitItems_reports (g := g) (fun x : Handle × String => .warn x.1 x.2) p.skipped
  simp only [bind_pure_unit] at hitems
  rw [← hitems]
  exact (get_bind_emitItems (fun x : Handle × String => .warn x.1 x.2)
    (fun options => emitSections g (sections options p) >>= fun _ => emitItem g (.report endReport))
    p.skipped).symm

theorem openTask_eq (t : TaskHead) : emitTask g t = perform.openTask g t >>= emitItems g := by
  unfold emitTask perform.openTask
  simp only [bind_assoc, pure_bind, emitItems_append, emitItems_singleton, emitItems_visits]
  rfl

theorem trees_eq_headTrees (hg : g.Grounded) (target : Option Handle) :
    g.trees target = ((g.follow? target).map fun n => g.headTrees n.handle).getD [] := by
  rcases target with _ | c
  · exact Graph.treesWithin_none g _
  · rcases hn : g.get? c with _ | n
    · show g.treesWithin (_ + 1) (some c) = _
      rw [Graph.treesWithin, show g.follow? (some c) = none from hn]
      rfl
    · rw [show g.follow? (some c) = some n from hn, Option.map_some, Option.getD_some,
        hg.handle_eq hn, hg.headTrees_eq hn]

theorem visitItem_eq (node : Handle) (margin : String) :
    emitItem g (.visit node margin) = visitItem g node margin >>= emitItems g := by
  rw [emitItem, visitItem, Graph.headTrees]
  cases hn : g.lastState? node with
  | none => rfl
  | some n =>
    simp only [bind_assoc, pure_bind, emitItems_singleton]
    rw [emitItem, hn]
    rfl

theorem emitItem_eq (hg : g.Grounded) (item : AgendaItem) : emitItem g item = perform g item >>= emitItems g := by
  cases item with
  | plan => exact planItems_eq
  | report r => rfl
  | openSection s =>
    cases s with
    | preamble text => rfl
    | global loose =>
      rw [emitItem, perform, emitSection]
      simp only [bind_assoc, pure_bind, emitItems_append, emitItems_singleton, emitItems_visits]
      rfl
    | task root =>
      rw [emitItem, perform, emitSection, bind_assoc]
      exact congrArg _ (funext fun t => openTask_eq t)
    | main loose => exact openTask_eq (looseHead loose)
  | visit node margin => exact visitItem_eq node margin
  | advance node margin =>
    have hbind : ((g.lastState? node).bind fun n => g.follow? n.next)
        = g.follow? ((g.lastState? node).bind (·.next)) := by
      cases g.lastState? node <;> rfl
    rw [emitItem, perform, trees_eq_headTrees hg, hbind]
    cases g.follow? ((g.lastState? node).bind (·.next)) with
    | none => rfl
    | some n => exact visitItem_eq n.handle margin
  | closeGlobal => exact bind_emitItems_nil Gen.closeScope
  | closeTask t => exact bind_emitItems_nil (emitTaskEnd t)

theorem perform_cases (item : AgendaItem) : Reports (perform g item)
    ∨ ∃ x : Gen Unit, Silent x ∧ perform g item = x >>= fun _ => pure [] := by
  have hvisit : ∀ node margin, Reports (visitItem g node margin)
      ∨ ∃ x : Gen Unit, Silent x ∧ visitItem g node margin = x >>= fun _ => pure [] := by
    intro node margin
    unfold visitItem
    cases g.lastState? node with
    | none => exact .inr ⟨pure (), .pure (), rfl⟩
    | some n =>
      exact .inl ((reports_emitBlock _ _ _).bind_sure (fun _ => .pure _) fun _ => .pure _)
  have htask : ∀ t, Reports (perform.openTask g t) := fun t =>
    (reports_emitTaskHeader g t).bind_sure
      (fun _ => .get_bind (fun _ => .pure _) fun _ _ => rfl) fun _ => .get_bind fun _ => .pure _
  cases item with
  | plan =>
    exact .inl ((silent_begin g).bind_reports fun _ => (Plan.silent_ofGraph g).bind_reports fun p =>
      (reports_emit _).bind_sure (fun _ => .get_bind (fun _ => .pure _) fun _ _ => rfl)
        fun _ => .get_bind fun _ => .pure _)
  | report r => exact .inl ((reports_emit r).bind_sure (fun _ => .pure _) fun _ => .pure _)
  | openSection s =>
    cases s with
    | preamble text => exact .inl ((reports_emit _).bind_sure (fun _ => .pure _) fun _ => .pure _)
    | global loose =>
      exact .inl ((reports_emitGlobalHeader g loose).bind_sure (fun _ => .pure _) fun _ => .pure _)
    | task root => exact .inl ((silent_taskHead g root).bind_reports htask)
    | main loose => exact .inl (htask _)
  | visit node margin => exact hvisit node margin
  | advance node margin =>
    rw [perform]
    cases (g.lastState? node).bind fun n => g.follow? n.next with
    | none => exact .inr ⟨pure (), .pure (), rfl⟩
    | some n => exact hvisit n.handle margin
  | closeGlobal => exact .inr ⟨Gen.closeScope, silent_closeScope, rfl⟩
  | closeTask t =>
    exact .inl ((reports_emitTaskEnd t).bind_sure (fun _ => .pure _) fun _ => .pure _)

/-! ## What is left to report -/

def rest (g : Graph) (run : CodeRun) : List CodeReport × Option GenError :=
  let left := outcome (emitItems g run.agenda) { run.context with reports := [] }
  (run.pending ++ left.1, left.2)

theorem rest_start (options : Options) : rest g (start options) = Generation.run g options := by
  unfold rest start
  rw [emitItems_singleton]
  rfl

theorem outcome_of_work (hg : g.Grounded) : ∀ (agenda : List AgendaItem) (c : Context) {run : CodeRun}
    {o : Option GenError}, work g c agenda = (run, o) →
      (o = none ∧ outcome (emitItems g agenda) { c with reports := [] } = run.rest g
        ∧ (run.pending = [] → run.agenda = []))
      ∨ ∃ e, o = some e ∧ outcome (emitItems g agenda) { c with reports := [] } = ([], some e)
        ∧ run.rest g = ([], none)
  | [], c, run, o, h => by
    cases h
    exact .inl ⟨rfl, rfl, fun _ => rfl⟩
  | item :: agenda, c, run, o, h => by
    have hitem : emitItems g (item :: agenda) = perform g item >>= fun items => emitItems g (items ++ agenda) := by
      rw [emitItems_cons, emitItem_eq hg, bind_assoc]
      exact congrArg _ (funext fun items => (emitItems_append items agenda).symm)
    rcases hexec : exec (perform g item) { c with reports := [] } with ⟨o', d⟩
    have hrun : (perform g item).run.run { c with reports := [] } = (o', d) := hexec
    rw [work, hrun] at h
    rw [hitem]
    cases o' with
    | error e =>
      -- nothing has been reported, whichever way the item goes
      have hquiet : d.reports = [] := by
        rcases perform_cases (g := g) item with hreports | ⟨x, hx, heq⟩
        · exact hreports.late _ e d hexec
        · have hsilent : Silent (perform g item) := by
            rw [heq]
            exact hx.bind fun _ => .pure []
          have hkept := hsilent.reports_eq { c with reports := [] }
          rwa [hexec] at hkept
      cases h
      exact .inr ⟨e, rfl, by rw [outcome_error (exec_bind_error hexec), hquiet], rfl⟩
    | ok items =>
      have hrest : outcome (perform g item >>= fun items => emitItems g (items ++ agenda))
          { c with reports := [] } = outcome (emitItems g (items ++ agenda)) d := by
        unfold outcome
        rw [exec_bind_ok hexec]
      rw [hrest]
      dsimp only at h
      rcases hd : d.reports with _ | ⟨r, rs⟩
      · rw [hd] at h
        have hnil : items = [] := by
          rcases perform_cases (g := g) item with hreports | ⟨x, -, heq⟩
          · have hlt := hreports.tells _ items d hexec
            rw [hd] at hlt
            exact absurd hlt (Nat.lt_irrefl 0)
          · rw [heq] at hexec
            obtain ⟨e, he, -⟩ | ⟨u, c', -, hpure⟩ := exec_bind_cases hexec
            · cases he
            · cases hpure
              rfl
        have hkept : { d with reports := [] } = d := by rw [← hd]
        rw [hnil, nil_append, ← hkept]
        exact outcome_of_work hg agenda d h
      · rw [hd] at h
        cases h
        refine .inl ⟨rfl, ?_, fun h => by cases h⟩
        rw [(framed_emitItems (items ++ agenda)).outcome_eq d, hd]
        rfl

/-- **Asking for a report** gives the first of those that are left; there is none left when the run is
over, and an error comes when all that was to be reported before it has been, and ends the run. -/
theorem rest_of_step (hg : g.Grounded) {run run' : CodeRun} {o : Except GenError (Option CodeReport)}
    (h : run.step g = (run', o)) :
    (∃ r, o = .ok (some r) ∧ run.rest g = (r :: (run'.rest g).1, (run'.rest g).2))
    ∨ (o = .ok none ∧ run.rest g = ([], none) ∧ run'.rest g = ([], none))
    ∨ ∃ e, o = .error e ∧ run.rest g = ([], some e) ∧ run'.rest g = ([], none) := by
  rcases run with ⟨c, agenda, pending⟩
  cases pending with
  | cons r pending =>
    cases h
    exact .inl ⟨r, rfl, rfl⟩
  | nil =>
    rw [step] at h
    dsimp only at h
    rcases hwork : work g c agenda with ⟨left, o'⟩
    have hrest : rest g ⟨c, agenda, []⟩ = outcome (emitItems g agenda) { c with reports := [] } := rfl
    rw [hrest]
    rw [hwork] at h
    rcases outcome_of_work hg agenda c hwork with ⟨rfl, hleft, hdone⟩ | ⟨e, rfl, herror, hover⟩
    · rw [hleft]
      rcases left with ⟨c', agenda', pending'⟩
      cases pending' with
      | cons r pending' =>
        cases h
        exact .inl ⟨r, rfl, rfl⟩
      | nil =>
        cases h
        obtain rfl : agenda' = [] := hdone rfl
        exact .inr (.inl ⟨rfl, rfl, rfl⟩)
    · cases h
      exact .inr (.inr ⟨e, rfl, herror, hover⟩)

end CodeRun

end NqcBlocks
