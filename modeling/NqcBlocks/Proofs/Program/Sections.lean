import NqcBlocks.Proofs.Program.Planning
import NqcBlocks.Proofs.Program.Record

/-!
# Programs in closed form

The reports that generating a program makes and the records of its sections, as functions of the graph
and the options, and the theorem that they are what generation comes to (`ends_recordProgram`): unless a
name is refused or a remark is no text, the program is written as its blocks describe it.
-/

namespace NqcBlocks

open Nqc Gen List

variable {n : Node} {heads : List Handle}

theorem Node.Conforms.taskSlots {spec : BlockSpec} (hc : n.Conforms spec)
    (hk : n.kind = .mainTask ∨ n.kind = .namedTask) : n.statementSlots.names = ["STATEMENTS"] := by
  have hknown := hc.known
  rcases hk with hk | hk <;> rw [hk] at hknown <;> cases hknown <;> exact (hc.slotNames rfl).2

namespace Generation

/-! ## Reports -/

def blockReports (options : Options) (σ : Spelling) (margin : String) (t : BlockTree) :
    List CodeReport :=
  (if t.node.enabled then
      { node := t.node.handle, message := "Generating code for " ++ t.node.kind.tag ++ " block."
        newCode := someText (Text.prefixLines (stmtsText options.indent (t.stmts σ)) margin) }
    else { node := t.node.handle
           message := "Skipping disabled " ++ t.node.kind.tag ++ " block." })
    :: (t.notes σ).map fun n => .warn n.node n.text

theorem code_warnings {ι : Type} (node : ι → Handle) (text : ι → String) : ∀ xs : List ι,
    CodeReport.code (xs.map fun x => .warn (node x) (text x)) = ""
  | [] => rfl
  | x :: xs => by
    rw [map_cons, CodeReport.code_cons, code_warnings node text xs]
    rfl

def treesOf (g : Graph) (heads : List Handle) : List BlockTree := (chainsOf g heads).flatten

def scopeOf (g : Graph) (r : Resolver) (key : ScopeKey) (heads : List Handle) : Scope :=
  sectionScope r key (chainParts (treesOf g heads))

def spellingOf (g : Graph) (r : Resolver) (key : ScopeKey) (heads : List Handle) : Spelling :=
  .ofScope r (scopeOf g r key heads)

def chainReports (g : Graph) (r : Resolver) (options : Options) (key : ScopeKey) (margin : String)
    (heads : List Handle) : List CodeReport :=
  (treesOf g heads).flatMap (blockReports options (spellingOf g r key heads) margin)

def taskRemark (g : Graph) (t : TaskHead) : String :=
  ((t.root.bind g.get?).map Node.remark).getD ""

def taskHeader (g : Graph) (r : Resolver) (options : Options) (t : TaskHead) : CodeReport :=
  { node := t.root
    message := if t.root.isSome then "Generating task " ++ t.name ++ "."
      else "No main task found: generating task main from loose blocks."
    newCode := taskRemark g t ++ "task " ++ t.name ++ "()\n\x7b\n"
      ++ (scopeOf g r t.key t.heads).declarations options.indent }

def taskEnd (t : TaskHead) : CodeReport :=
  { node := t.root, message := "Closing task " ++ t.name ++ ".", newCode := "\x7d\n" }

def taskReports (g : Graph) (r : Resolver) (options : Options) (t : TaskHead) : List CodeReport :=
  taskHeader g r options t :: chainReports g r options t.key options.indent t.heads ++ [taskEnd t]

def globalHeader (g : Graph) (r : Resolver) (loose : List Handle) : CodeReport :=
  { message := "Generating global section."
    newCode := someText ((scopeOf g r .global loose).declarations "") }

def taskOf (r : Resolver) (n : Node) : TaskHead :=
  let name := match n.kind with
    | .mainTask => entryName
    | _ => r.spell .task (n.text "NAME")
  { name
    key := match n.kind with
      | .mainTask => .main
      | _ => .task name
    root := n.handle
    heads := (n.at? "STATEMENTS").toList }

def sectionReports (g : Graph) (r : Resolver) (options : Options) : Section → List CodeReport
  | .preamble text => [{ message := "Writing preamble.", newCode := endLine text }]
  | .global loose => globalHeader g r loose :: chainReports g r options .global "" loose
  | .task root => ((g.get? root).map fun n => taskReports g r options (taskOf r n)).getD []
  | .main loose => taskReports g r options (looseHead loose)

def sectionsReports (g : Graph) (r : Resolver) (options : Options) : List Section → List CodeReport
  | [] => []
  | [s] => sectionReports g r options s
  | s :: rest => sectionReports g r options s
      ++ { message := "Separating sections.", newCode := "\n" } :: sectionsReports g r options rest

def programReports (g : Graph) (options : Options) : List CodeReport :=
  let r := g.resolver options.policy
  startReport (g.plan r) :: (g.plan r).skipped.map (fun (h, reason) => .warn h reason)
    ++ sectionsReports g r options (sections options (g.plan r)) ++ [endReport]

/-! ## Records -/

def recordOf (g : Graph) (r : Resolver) (part : Section) (key : ScopeKey) (heads : List Handle) :
    SectionRecord :=
  { part, opened := scopeOf g r key heads, closed := scopeOf g r key heads
    code := chainStmts (spellingOf g r key heads) (treesOf g heads) }

def sectionRecords (g : Graph) (r : Resolver) : Section → List SectionRecord
  | .preamble _ => []
  | .global loose => [recordOf g r (.global loose) .global loose]
  | .task root => ((g.get? root).map fun n =>
      [recordOf g r (.task root) (taskOf r n).key (taskOf r n).heads]).getD []
  | .main loose => [recordOf g r (.main loose) .main loose]

/-! ## Names -/

def sectionNames (g : Graph) : Section → Set ReservedNameError
  | .preamble _ => ∅
  | .global loose | .main loose => namesOf (chainParts (treesOf g loose))
  | .task root => { u | ∃ n, g.get? root = some n
      ∧ (n.kind = .namedTask ∧ u = ⟨n.text "NAME", .task⟩
        ∨ u ∈ namesOf (chainParts (treesOf g (n.at? "STATEMENTS").toList))) }

section Ends

variable {g : Graph} {r : Resolver} {c : Context}

/-! ## Blocks -/

theorem ends_forIn_emit {ι : Type} (report : ι → CodeReport) (xs : List ι) (c : Context) :
    Ends g r (forIn xs PUnit.unit fun x _ => do
        emit (report x)
        pure (ForInStep.yield PUnit.unit)) c ∅ PUnit.unit
      { c with reports := c.reports ++ xs.map report } :=
  .of_exec (fun _ => exec_forIn_emit report xs _) (prefix_append _ _)

theorem ends_tellNotes {α : Type} (a : α) (c : Context) : Ends g r (do
        for n in ← takeNotes do
          emit (.warn n.node n.text)
        pure a) c ∅ a
      { c with notes := [], reports := c.reports ++ c.notes.map fun n => .warn n.node n.text } := by
  refine ends_takeNotes.bind_step ?_
  exact (ends_forIn_emit (fun n : CodeNote => .warn n.node n.text) c.notes _).bind_step (.pure a _)

variable {s : Scope} {key : ScopeKey} {t : TaskHead} {sec : Section} {options : Options}

theorem ends_recordBlock {t : BlockTree} (ht : t.Sound g) (hren : t.node.kind.isRenderable = true)
    (hserve : s.Serves r t.parts) (hs : c.scope = some s) (hnotes : c.notes = [])
    (margin : String) :
    Ends g r (recordBlock .builtin margin t) c (namesOf t.parts) (t.stmts (.ofScope r s))
      { c with reports := c.reports ++ blockReports c.options (.ofScope r s) margin t } := by
  have hcode := ht.emits_code hren hserve c hs
  rw [hnotes, nil_append] at hcode
  have htell : ∀ report : CodeReport, Ends g r (do
      emit report
      for n in ← takeNotes do
        emit (.warn n.node n.text)
      pure (t.stmts (.ofScope r s))) { c with notes := t.notes (.ofScope r s) } ∅
        (t.stmts (.ofScope r s)) { c with reports := c.reports
          ++ (report :: (t.notes (.ofScope r s)).map fun n => .warn n.node n.text) } := by
    intro report
    have h := ends_tellNotes (g := g) (r := r) (t.stmts (.ofScope r s))
      { c with notes := t.notes (.ofScope r s), reports := c.reports ++ [report] }
    rw [← hnotes, append_assoc] at h
    exact (ends_emit report).bind_step h
  unfold recordBlock blockReports
  refine hcode.bind_last (.get_bind fun names _ => ?_)
  cases t.node.enabled with
  | true => exact htell _
  | false => exact htell _

theorem ends_recordBlocks (margin : String) : ∀ {ts : List BlockTree},
    (∀ t ∈ ts, t.Sound g ∧ t.node.kind.isRenderable = true) → s.Serves r (chainParts ts) →
    ∀ {c : Context}, c.scope = some s → c.notes = [] →
      Ends g r (recordBlocks .builtin margin ts) c (namesOf (chainParts ts)) (chainStmts (.ofScope r s) ts)
        { c with reports := c.reports ++ ts.flatMap (blockReports c.options (.ofScope r s) margin) }
  | [], _, _, c, _, _ => by
    rw [recordBlocks, chainParts, namesOf_nil, chainStmts, flatMap_nil, append_nil]
    exact .pure [] c
  | t :: ts, hts, hserve, c, hs, hnotes => by
    rw [chainParts] at hserve
    obtain ⟨ht, hren⟩ := hts t mem_cons_self
    have hfirst := ends_recordBlock ht hren (hserve.mono (subset_append_left _ _)) hs hnotes margin
    have hrest := ends_recordBlocks margin (fun t ht => hts t (mem_cons_of_mem _ ht))
      (hserve.mono (subset_append_right _ _))
      (c := { c with reports := c.reports ++ blockReports c.options (.ofScope r s) margin t })
      hs hnotes
    rw [append_assoc] at hrest
    rw [recordBlocks, chainParts, namesOf_append, chainStmts, flatMap_cons]
    exact hfirst.bind (hrest.bind_last (.pure _ _))

/-! ## Sections -/

def Heads (g : Graph) (heads : List Handle) : Prop :=
  ∀ h ∈ heads, ∃ n, g.get? h = some n ∧ n.kind.isRenderable = true

theorem Heads.trees (hg : g.Forest) (hheads : Heads g heads) :
    ∀ t ∈ treesOf g heads, t.Sound g ∧ t.node.kind.isRenderable = true := by
  intro t ht
  obtain ⟨chain, hchain, ht⟩ := List.mem_flatten.mp ht
  obtain ⟨h, hh, rfl⟩ := mem_map.mp hchain
  obtain ⟨n, hn, hren⟩ := hheads h hh
  rw [hg.headTrees_eq hn, hg.trees_eq hn] at ht
  obtain ⟨hsound, hrest⟩ := hg.sound_trees_aux hn
  rcases mem_cons.mp ht with rfl | ht
  · exact ⟨hsound, by rw [hg.node_tree hn]; exact hren⟩
  · exact ⟨(hrest t ht).1, Node.isRenderable_of_isStatement (hrest t ht).2⟩

theorem ends_prescan_chains {g' : Graph} (hg : g.Forest) (hheads : Heads g heads)
    (hs : c.scope = some { key }) :
    Ends g' r (prescan g.catalog (chainsOf g heads)) c (variableNames (chainParts (treesOf g heads))) ()
      { c with scope := some (scopeOf g r key heads) } := by
  rw [hg.builtin]
  refine ends_prescan (g := g) (fun chain hchain t ht => ?_) hs
  exact (hheads.trees hg t (List.mem_flatten.mpr ⟨chain, hchain, ht⟩)).1

theorem ends_recordChains (hg : g.Forest) (hheads : Heads g heads) (key : ScopeKey)
    (margin : String) (hs : c.scope = some (scopeOf g r key heads)) (hnotes : c.notes = []) :
    Ends g r (recordBlocks g.catalog margin (chainsOf g heads).flatten) c (namesOf (chainParts (treesOf g heads)))
      (chainStmts (spellingOf g r key heads) (treesOf g heads))
      { c with reports := c.reports ++ chainReports g r c.options key margin heads } := by
  rw [hg.builtin]
  exact ends_recordBlocks margin (hheads.trees hg) (serves_sectionScope _ _ _) hs hnotes

theorem mem_names_of_mem_variables {v : String} (hv : v ∈ n.variables) : ⟨v, .variable⟩ ∈ n.names := by
  obtain ⟨⟨name, use⟩, hu, rfl⟩ := mem_map.mp hv
  obtain ⟨hu, huse⟩ := mem_filter.mp hu
  cases beq_iff_eq.mp huse
  exact hu

theorem variableNames_union (parts : List BlockTree) : variableNames parts ∪ namesOf parts = namesOf parts := by
  refine Set.union_eq_self_of_subset_left ?_
  rintro u ⟨v, hv, rfl⟩
  obtain ⟨p, hp, hv⟩ := mem_flatMap.mp hv
  exact ⟨p, hp, mem_names_of_mem_variables hv⟩

theorem ends_sectionDeclarations (hs : c.scope = some (scopeOf g r key heads)) (margin : String) :
    Ends g r (declarations key margin) c ∅ ((scopeOf g r key heads).declarations margin) c := by
  have h := ends_declarations (g := g) (r := r) hs margin
  have hkey : (scopeOf g r key heads).key = key := key_sectionScope _ _ _
  rw [hkey] at h
  exact h

theorem ends_emitTaskHeader (hg : g.Forest) (hheads : Heads g t.heads)
    (hroot : ∀ h, t.root = some h → ∃ n, g.get? h = some n) (hs : c.scope = none) :
    Ends g r (emitTaskHeader g t) c (variableNames (chainParts (treesOf g t.heads))) ()
      { c with scope := some (scopeOf g r t.key t.heads)
               reports := c.reports ++ [taskHeader g r c.options t] } := by
  have hlast : t.root.bind g.lastState? = t.root.bind g.get? := by
    cases hh : t.root with
    | none => rfl
    | some h =>
      obtain ⟨n, hn⟩ := hroot h hh
      rw [Option.bind_some, Option.bind_some, Graph.lastState?_of_get? hn, hn]
  unfold emitTaskHeader taskHeader taskRemark
  refine (ends_openScope hs t.key).bind_step ((ends_prescan_chains hg hheads rfl).bind_last ?_)
  rw [hlast]
  cases hb : t.root.bind g.get? with
  | none =>
    refine (Ends.pure _ _).bind_step (.get_bind fun names _ => ?_)
    exact (ends_sectionDeclarations rfl _).bind_step (ends_emit _)
  | some n =>
    obtain ⟨h, -, hn⟩ := Option.bind_eq_some_iff.mp hb
    refine (ends_commentLines (by rw [hg.handle_eq hn, hn]) _).bind_step (.get_bind fun names _ => ?_)
    exact (ends_sectionDeclarations rfl _).bind_step (ends_emit _)

theorem ends_recordTask (hg : g.Forest) (part : Section) (hheads : Heads g t.heads)
    (hroot : ∀ h, t.root = some h → ∃ n, g.get? h = some n) (hs : c.scope = none) (hnotes : c.notes = []) :
    Ends g r (recordTask g part t) c (namesOf (chainParts (treesOf g t.heads)))
      (recordOf g r part t.key t.heads)
      { c with reports := c.reports ++ taskReports g r c.options t } := by
  have hchains := ends_recordChains (g := g) (r := r) hg hheads t.key c.options.indent
    (c := { c with scope := some (scopeOf g r t.key t.heads)
                   reports := c.reports ++ [taskHeader g r c.options t] }) rfl hnotes
  have hend : Ends g r (emitTaskEnd t)
      { c with scope := some (scopeOf g r t.key t.heads)
               reports := c.reports ++ [taskHeader g r c.options t]
                 ++ chainReports g r c.options t.key c.options.indent t.heads } ∅ ()
      { c with reports := c.reports ++ taskReports g r c.options t } := by
    have hreports : c.reports ++ taskReports g r c.options t
        = c.reports ++ [taskHeader g r c.options t]
          ++ chainReports g r c.options t.key c.options.indent t.heads ++ [taskEnd t] := by
      simp [taskReports]
    unfold emitTaskEnd
    rw [hs, hreports]
    exact (ends_closeScope rfl).bind_step (ends_emit (taskEnd t))
  unfold recordTask
  refine ((ends_emitTaskHeader hg hheads hroot hs).bind (.get_bind fun _ _ => .get_bind fun _ _ =>
    hchains.bind_last (.get_bind fun _ _ => ?_))).congr_uses (variableNames_union _)
  exact hend.bind_step (.pure _ _)

theorem statementTarget_task (hg : g.Forest) (hn : g.get? n.handle = some n)
    (hk : n.kind = .mainTask ∨ n.kind = .namedTask) :
    ∃ body, g.statementTarget n.handle "STATEMENTS" = .ok body
      ∧ (body.map (·.handle)).toList = (n.at? "STATEMENTS").toList := by
  obtain ⟨-, spec, hc⟩ := hg.sound hn
  have hslots := hc.taskSlots hk
  obtain ⟨target, htarget⟩ := Table.exists_get?_of_mem_names
    (hslots ▸ mem_singleton.mpr rfl : "STATEMENTS" ∈ n.statementSlots.names)
  have hat := Graph.Forest.at?_of_mem_statementSlots hc (Table.mem_of_get? htarget)
  refine ⟨g.follow? target, ?_, ?_⟩
  · have hslot : n.statementSlot "STATEMENTS" = .ok target := by
      unfold Node.statementSlot
      rw [htarget]
    unfold Graph.statementTarget
    rw [Graph.node_eq_ok_iff.mpr hn]
    show (n.statementSlot "STATEMENTS" >>= fun target => pure (g.follow? target)) = _
    rw [hslot]
    rfl
  · rw [hat]
    cases target with
    | none => rfl
    | some h =>
      obtain ⟨m, hm, -⟩ := hg.exists_child hn hat
      show ((g.get? h).map (·.handle)).toList = [h]
      rw [hm, Option.map_some, hg.handle_eq hm]
      rfl

theorem ends_taskHead (hg : g.Forest) (hn : g.get? n.handle = some n)
    (hk : n.kind = .mainTask ∨ n.kind = .namedTask ∧ n.text "NAME" ≠ "") (c : Context) :
    Ends g r (taskHead g n.handle) c { u | n.kind = .namedTask ∧ u = ⟨n.text "NAME", .task⟩ } (taskOf r n) c := by
  obtain ⟨body, hbody, hheads⟩ := statementTarget_task hg hn (hk.imp id (·.1))
  obtain ⟨-, spec, hc⟩ := hg.sound hn
  unfold taskHead taskOf
  rw [Graph.lastState?_of_get? hn, Option.getD_some, hbody, ← hheads]
  dsimp only
  rcases hk with hk | ⟨hk, hne⟩
  · rw [hk]
    refine Ends.congr_uses ((Ends.pure _ c).bind_step ((ends_ofGraph rfl).bind_step (.pure _ c))) ?_
    ext u
    simp
  · have hget : n.fields.get? "NAME" = some (.text (n.text "NAME")) := by
      have hknown := hc.known
      rw [hk] at hknown
      cases hknown
      exact (hc.identifier mem_cons_self rfl).1
    have hempty : (Name.text (r.spell .task (n.text "NAME"))).isEmpty = false := by
      show (!(!(r.spell .task (n.text "NAME")).isEmpty)) = false
      rw [Bool.not_not, Bool.eq_false_iff]
      exact fun h => spell_ne_empty hne (String.isEmpty_iff.mp h)
    rw [hk, hget]
    dsimp only
    refine Ends.congr_uses ((ends_resolveValue .task (n.text "NAME")).bind_last
      ((Ends.pure _ c).bind_step ((ends_ofGraph rfl).bind_step ?_))) ?_
    · rw [hempty]
      exact .pure _ c
    · ext u
      simp

/-- **A section that can be written**: its chains start with blocks that have code of their own, and its
task has a name. -/
inductive Ready (g : Graph) : Section → Prop
  | preamble (text : String) : Ready g (.preamble text)
  | global {loose : List Handle} : Heads g loose → Ready g (.global loose)
  | task {n : Node} : g.get? n.handle = some n →
      (n.kind = .mainTask ∨ n.kind = .namedTask ∧ n.text "NAME" ≠ "") → Ready g (.task n.handle)
  | main {loose : List Handle} : Heads g loose → Ready g (.main loose)

theorem heads_task (hg : g.Forest) (hn : g.get? n.handle = some n)
    (hk : n.kind = .mainTask ∨ n.kind = .namedTask) : Heads g (n.at? "STATEMENTS").toList := by
  intro h hh
  rw [Option.mem_toList] at hh
  obtain ⟨m, hm, -, sort, hsort, hfits⟩ := hg.exists_child hn hh
  refine ⟨m, hm, ?_⟩
  obtain ⟨-, spec, hc⟩ := hg.sound hn
  have hslots := hc.taskSlots hk
  have hpos : Graph.ChainPosition.IsOf n (.slot "STATEMENTS") :=
    Table.contains_iff.mpr (hslots ▸ mem_singleton.mpr rfl)
  have hchain : n.socket? "STATEMENTS" = some .chain := Graph.ChainPosition.socket?_eq hc hpos
  rw [hchain] at hsort
  cases hsort
  exact Node.isRenderable_of_isStatement hfits

theorem ends_recordSection (hg : g.Forest) (hsec : Ready g sec) (hs : c.scope = none)
    (hnotes : c.notes = []) :
    Ends g r (recordSection g sec) c (sectionNames g sec) (sectionRecords g r sec)
      { c with reports := c.reports ++ sectionReports g r c.options sec } := by
  cases hsec with
  | preamble text => exact (ends_emit _).bind_step (.pure _ _)
  | @global loose hheads =>
    have hchains := ends_recordChains (g := g) (r := r) hg hheads .global ""
      (c := { c with scope := some (scopeOf g r .global loose)
                     reports := c.reports ++ [globalHeader g r loose] }) rfl hnotes
    rw [append_assoc] at hchains
    have hheader : Ends g r (emitGlobalHeader g loose) c
        (variableNames (chainParts (treesOf g loose))) ()
        { c with scope := some (scopeOf g r .global loose)
                 reports := c.reports ++ [globalHeader g r loose] } :=
      (ends_openScope hs .global).bind_step ((ends_prescan_chains hg hheads rfl).bind_last
        ((ends_sectionDeclarations rfl "").bind_step (ends_emit _)))
    refine (hheader.bind (.get_bind fun _ _ => hchains.bind_last (.get_bind fun _ _ => ?_))).congr_uses
      (variableNames_union _)
    have hclose := (ends_closeScope (g := g) (r := r) (c := { c with
      scope := some (scopeOf g r .global loose)
      reports := c.reports ++ sectionReports g r c.options (.global loose) }) rfl)
    rw [← hs] at hclose
    exact hclose.bind_step (.pure _ _)
  | @task n hn hk =>
    have htask := ends_recordTask (g := g) (r := r) (c := c)
      (t := taskOf r n) hg (.task n.handle) (heads_task hg hn (hk.imp id (·.1)))
      (fun h hh => ⟨n, by cases hh; exact hn⟩) hs hnotes
    have hreports : sectionReports g r c.options (.task n.handle)
        = taskReports g r c.options (taskOf r n) := by
      rw [sectionReports, hn]
      rfl
    have hrecords : sectionRecords g r (.task n.handle)
        = [recordOf g r (.task n.handle) (taskOf r n).key (taskOf r n).heads] := by
      rw [sectionRecords, hn]
      rfl
    have hnames : sectionNames g (.task n.handle)
        = { u | n.kind = .namedTask ∧ u = ⟨n.text "NAME", .task⟩ }
          ∪ namesOf (chainParts (treesOf g (taskOf r n).heads)) := by
      ext u
      rw [sectionNames, hn]
      simp [taskOf]
    rw [hreports, hrecords, hnames]
    exact (ends_taskHead hg hn hk c).bind (htask.bind_last (.pure _ _))
  | @main loose hheads =>
    exact (ends_recordTask hg _ (t := looseHead loose) hheads (fun h hh => by cases hh) hs hnotes).bind_last
      (.pure _ _)

/-! ## Programs -/

theorem ends_recordSections (hg : g.Forest) : ∀ {ss : List Section}, (∀ sec ∈ ss, Ready g sec) →
    ∀ {c : Context}, c.scope = none → c.notes = [] →
      Ends g r (recordSections g ss) c { u | ∃ sec ∈ ss, u ∈ sectionNames g sec } (ss.flatMap (sectionRecords g r))
        { c with reports := c.reports ++ sectionsReports g r c.options ss }
  | [], _, c, _, _ => by
    rw [recordSections, sectionsReports, append_nil]
    refine (Ends.pure _ c).congr_uses ?_
    ext u
    simp
  | [sec], hss, c, hs, hnotes => by
    rw [recordSections, sectionsReports, flatMap_singleton]
    refine (ends_recordSection hg (hss sec mem_cons_self) hs hnotes).congr_uses ?_
    ext u
    simp
  | sec :: sec' :: rest, hss, c, hs, hnotes => by
    have hfirst := ends_recordSection (r := r) hg (hss sec mem_cons_self) hs hnotes
    have hrest := ends_recordSections hg (fun x hx => hss x (mem_cons_of_mem _ hx))
      (c := { c with reports := c.reports ++ sectionReports g r c.options sec
        ++ [{ message := "Separating sections.", newCode := "\n" }] }) hs hnotes
    have hreports : c.reports ++ sectionsReports g r c.options (sec :: sec' :: rest)
        = c.reports ++ sectionReports g r c.options sec ++ [{ message := "Separating sections.", newCode := "\n" }]
          ++ sectionsReports g r c.options (sec' :: rest) := by
      simp [sectionsReports]
    rw [hreports, flatMap_cons]
    refine Ends.congr_uses (hfirst.bind ((ends_emit _).bind_step (hrest.bind_last (.pure _ _)))) ?_
    ext u
    simp

theorem heads_loose (hg : g.Forest) : Heads g (g.plan r).loose := by
  intro h hh
  obtain ⟨n, ⟨hn, -, -, hmain, hnamed⟩, rfl⟩ := hg.mem_plan_loose.mp hh
  refine ⟨n, hn, ?_⟩
  obtain ⟨-, spec, hc⟩ := hg.sound hn
  have hknown := hc.known
  cases hk : n.kind with
  | mainTask => exact absurd hk hmain
  | namedTask => exact absurd hk hnamed
  | extension tag => rw [hk] at hknown; cases hknown
  | _ => rfl

theorem mem_sections_iff {p : Plan} : sec ∈ sections options p
      ↔ options.preamble.isEmpty = false ∧ sec = .preamble options.preamble
        ∨ p.loose ≠ [] ∧ p.hasMain = true ∧ sec = .global p.loose
        ∨ (∃ root ∈ p.tasks, sec = .task root)
        ∨ p.hasMain = false ∧ sec = .main p.loose := by
  unfold sections
  simp only [mem_append, mem_map, or_assoc]
  refine or_congr ?_ (or_congr ?_ (or_congr ?_ ?_))
  · cases options.preamble.isEmpty <;> simp
  · cases p.hasMain <;> cases p.loose <;> simp
  · simp only [eq_comm]
  · cases p.hasMain <;> simp

theorem ready_sections (hg : g.Forest) (options : Options) : ∀ sec ∈ sections options (g.plan r), Ready g sec := by
  intro sec hsec
  rcases mem_sections_iff.mp hsec with ⟨-, rfl⟩ | ⟨-, -, rfl⟩ | ⟨root, hroot, rfl⟩ | ⟨-, rfl⟩
  · exact .preamble _
  · exact .global (heads_loose hg)
  · obtain ⟨n, ⟨hn, -, hk⟩, rfl⟩ := hg.mem_plan_tasks.mp hroot
    exact .task hn (hk.imp (·.1) fun h => ⟨h.1, h.2.1⟩)
  · exact .main (heads_loose hg)

def programNames (g : Graph) (options : Options) : Set ReservedNameError :=
  { u | (∃ n ∈ g.topBlocks, u ∈ n.taskNames)
    ∨ ∃ sec ∈ sections options (g.plan (g.resolver options.policy)), u ∈ sectionNames g sec }

def programRecords (g : Graph) (options : Options) : List SectionRecord :=
  (sections options (g.plan (g.resolver options.policy))).flatMap
    (sectionRecords g (g.resolver options.policy))

theorem ends_recordPlanned (hg : g.Forest) (options : Options) :
    Ends g (g.resolver options.policy) (recordPlanned g) (.start options) (programNames g options)
      (g.plan (g.resolver options.policy), programRecords g options)
      { Context.start options with reports := programReports g options } := by
  have hsections := ends_recordSections (r := g.resolver options.policy) hg
    (ready_sections (r := g.resolver options.policy) hg options)
    (c := { Context.start options with reports := [startReport (g.plan (g.resolver options.policy))]
      ++ (g.plan (g.resolver options.policy)).skipped.map fun (h, reason) => .warn h reason }) rfl rfl
  unfold recordPlanned programReports
  refine (ends_plan hg rfl _).bind ((ends_emit _).bind_step
    ((ends_forIn_emit (fun x : Handle × String => .warn x.1 x.2) _ _).bind_step
      (.get_bind fun _ _ => hsections.bind_last ?_)))
  exact (ends_emit endReport).bind_step (.pure _ _)

/-- **How generating the program of a forest ends**: with the reports that its blocks describe, if all
names that it resolves are allowed; with a refusal of one that is not; or with a complaint about a
remark that is no text. -/
theorem exec_recordProgram (hg : g.Forest) (options : Options) :
    ((∀ u ∈ programNames g options, options.policy.Allows u)
      ∧ ∃ names, exec (recordProgram g) (.start options)
        = (.ok (g.plan (g.resolver options.policy), programRecords g options),
          { Context.start options with names, reports := programReports g options }))
    ∨ (∃ u ∈ programNames g options, ¬ options.policy.Allows u
      ∧ ∃ c, exec (recordProgram g) (.start options) = (.error (.reserved u), c)
        ∧ c.reports <+: programReports g options)
    ∨ ∃ n, g.get? n.handle = some n ∧ n.HasOddRemark ∧ ∃ c,
      exec (recordProgram g) (.start options) = (.error (.defect (.commentNotText n.handle)), c)
        ∧ c.reports <+: programReports g options := by
  have hbegin : exec (recordProgram g) (.start options) = exec (recordPlanned g)
      { Context.start options with names := g.resolver options.policy } := by
    refine exec_bind_ok (a := ()) ?_
    unfold Gen.begin
    rw [if_pos hg.isNamed]
    rfl
  rw [hbegin]
  rcases (ends_recordPlanned hg options _ (.refl rfl)).2 with ⟨hallow, names, -, h⟩ | h | h
  · exact .inl ⟨hallow, names, h⟩
  · exact .inr (.inl h)
  · exact .inr (.inr h)

theorem run_eq (g : Graph) (options : Options) : run g options = match exec (recordProgram g) (.start options) with
      | (.ok _, c) => (c.reports, none)
      | (.error e, c) => (c.reports, some e) := by
  have hexec : (emitProgram g).run.run (.start options)
      = exec (recordProgram g >>= fun _ => pure ()) (.start options) := by
    rw [emitProgram_eq, map_eq_pure_bind]
    rfl
  unfold run
  rw [hexec, exec_bind]
  rcases exec (recordProgram g) (.start options) with ⟨_ | _, c⟩ <;> rfl

theorem run_outcome (hg : g.Forest) (options : Options) : (∀ u ∈ programNames g options, options.policy.Allows u)
      ∧ run g options = (programReports g options, none)
    ∨ (∃ u ∈ programNames g options, ¬ options.policy.Allows u
      ∧ (run g options).2 = some (.reserved u))
    ∨ ∃ n, g.get? n.handle = some n ∧ n.HasOddRemark
      ∧ (run g options).2 = some (.defect (.commentNotText n.handle)) := by
  rw [run_eq]
  rcases exec_recordProgram hg options with ⟨hallow, names, h⟩ | ⟨u, hu, hnot, c, h, -⟩
    | ⟨n, hn, hodd, c, h, -⟩
  · rw [h]
    exact .inl ⟨hallow, rfl⟩
  · rw [h]
    exact .inr (.inl ⟨u, hu, hnot, rfl⟩)
  · rw [h]
    exact .inr (.inr ⟨n, hn, hodd, rfl⟩)

/-- What a run reports is the beginning of what the blocks describe. -/
theorem reports_prefix (hg : g.Forest) (options : Options) : (run g options).1 <+: programReports g options := by
  rw [run_eq]
  rcases exec_recordProgram hg options with ⟨-, names, h⟩ | ⟨u, -, -, c, h, hc⟩ | ⟨n, -, -, c, h, hc⟩
  · rw [h]
  · rw [h]
    exact hc
  · rw [h]
    exact hc

theorem exec_of_run (hg : g.Forest) (hrun : (run g options).2 = none) :
    (∀ u ∈ programNames g options, options.policy.Allows u)
      ∧ (run g options).1 = programReports g options
      ∧ ∃ c, exec (recordProgram g) (.start options)
        = (.ok (g.plan (g.resolver options.policy), programRecords g options), c)
        ∧ c.reports = programReports g options := by
  rw [run_eq] at hrun ⊢
  rcases exec_recordProgram hg options with ⟨hallow, names, h⟩ | ⟨u, -, -, c, h, -⟩ | ⟨n, -, -, c, h, -⟩
  · rw [h]
    exact ⟨hallow, rfl, _, rfl, rfl⟩
  · rw [h] at hrun
    cases hrun
  · rw [h] at hrun
    cases hrun

end Ends

end Generation

end NqcBlocks
