import NqcBlocks.Proofs.Program.Declaration
import NqcBlocks.Proofs.Program.Legibility

/-!
# Programs are read back as they are described

The text of a program is put together from the texts of its sections, and those from declarations and
the texts of blocks. Each of these ends its line and so can be read by itself; read one after the other
they give the program that the blocks describe (`Generation.parse_code`).
-/

namespace NqcBlocks

open Nqc List String Scope Resolver Bool

variable {n : Node} {options : Options} {key : ScopeKey} {heads : List Handle} {margin : String} {t : BlockTree}

/-! ## Names -/

theorem isIdentifier_of_not_isReserved {w : String} (h : isReserved w = false) : isIdentifier w = true := by
  have hreserved : ∀ x ∈ grammarWords, isReserved x = true := by decide
  unfold isIdentifier
  rw [not_eq_true', eq_false_iff]
  intro hmem
  rw [hreserved w (contains_iff_mem.mp hmem)] at h
  cases h

theorem isName_suffixed {w : String} (h : isName w = true) (k : Nat) : isName (suffixed w k) = true := by
  unfold isName at h ⊢
  cases hcs : w.toList with
  | nil =>
    rw [hcs] at h
    cases h
  | cons c cs =>
    rw [hcs] at h
    have hsuffixed : (suffixed w k).toList = c :: (cs ++ Nat.toDigits 10 k) := by
      unfold suffixed Number.natText
      rw [toList_append, hcs, toList_ofList]
      rfl
    rw [hsuffixed]
    rw [and_eq_true] at h ⊢
    rw [all_append, and_eq_true]
    refine ⟨h.1, h.2, all_eq_true.mpr fun d hd => ?_⟩
    exact (isNameChar_of_isDigit (Nat.isDigit_of_mem_toDigits (by decide) (by decide) hd)).1

theorem Resolver.isWord_spell {r : Resolver} {use : NameUse} {name : String}
    (hname : isName name = true) (hallow : r.policy.Allows ⟨name, use⟩) : IsWord (r.spell use name) := by
  have hplain : ∀ {w}, isReservedTask w = false → isIdentifier w = true := by
    intro w hw
    unfold isReservedTask at hw
    rw [or_eq_false_iff] at hw
    exact isIdentifier_of_not_isReserved hw.2
  unfold spell
  split
  · have hfree := r.isFree_freshName name
    unfold isFree at hfree
    rw [not_eq_true', or_eq_false_iff] at hfree
    exact ⟨isName_suffixed hname _, hplain hfree.2⟩
  · next h =>
    refine ⟨hname, ?_⟩
    have hnot : use.forbids name = false := by
      rcases hallow with hrename | hnot
      · rw [hrename] at h
        simpa using h
      · exact hnot
    cases use
    · exact isIdentifier_of_not_isReserved hnot
    · exact hplain hnot

theorem Scope.isWord_boundName (k : Nat) : IsWord (boundName k) := by
  refine ⟨isName_suffixed (by decide) k, ?_⟩
  have hplain : ∀ w ∈ grammarWords, '_' ∉ w.toList := by decide
  unfold isIdentifier
  rw [not_eq_true', eq_false_iff]
  intro hmem
  refine hplain _ (contains_iff_mem.mp hmem) ?_
  unfold boundName suffixed
  rw [toList_append]
  exact mem_append_left _ (by decide)

theorem Node.Conforms.isName_of_mem_names {spec : BlockSpec} (hc : n.Conforms spec)
    {u : ReservedNameError} (hu : u ∈ n.names) : isName u.name = true := by
  have hknown := hc.known
  unfold Node.names at hu
  cases hk : n.kind <;> rw [hk] at hknown hu <;> simp [BlockKind.nameField?] at hu <;>
    cases hknown <;> subst hu <;>
    exact ((hc.identifier mem_cons_self rfl).2).resolve_left fun h => by cases h.2

/-! ## Notes -/

def CodeNote.IsGrouping (g : Graph) (σ : Spelling) (note : CodeNote) : Prop :=
  ∃ (t : BlockTree) (n : Node) (spec : BlockSpec) (slot : String), t.Sound g ∧ t.node.isValue = true
    ∧ n.Conforms spec ∧ slot ∈ n.valueSlots.names ∧ note.text = groupingNote (t.reading σ).expr n.kind slot

section Notes

variable {note : CodeNote}

theorem exists_of_mem_valueNotes {notes : String → Order → List CodeNote}
    (h : note ∈ valueNotes n notes) : ∃ slot required, note ∈ notes slot required := by
  unfold valueNotes binaryNotes at h
  cases hk : n.kind <;> rw [hk] at h
  case arithmetic | compare | logic =>
    rcases mem_append.mp h with h | h
    · exact ⟨_, _, h⟩
    · exact ⟨_, _, h⟩
  case negate | group => exact ⟨_, _, h⟩
  all_goals cases h

theorem exists_of_mem_nodeNotes {counter : Bool} {value : String → Order → List CodeNote}
    {body : String → List CodeNote} (h : note ∈ nodeNotes n counter value body) :
    (∃ slot required, note ∈ value slot required) ∨ ∃ slot, note ∈ body slot := by
  have hvalue : note ∈ valueNotes n value →
      (∃ slot required, note ∈ value slot required) ∨ ∃ slot, note ∈ body slot :=
    fun h => .inl (exists_of_mem_valueNotes h)
  unfold nodeNotes at h
  cases hk : n.kind <;> rw [hk] at h
  case conditional =>
    rcases mem_append.mp h with h | h
    · obtain ⟨i, -, h⟩ := mem_flatMap.mp h
      rcases mem_append.mp h with h | h
      · exact .inl ⟨_, _, h⟩
      · exact .inr ⟨_, h⟩
    · split at h
      · exact .inr ⟨_, h⟩
      · cases h
  case repeatTimes =>
    rcases mem_append.mp h with h | h
    · exact .inl ⟨_, _, h⟩
    · exact .inr ⟨_, h⟩
  case repeatUntil =>
    rcases mem_append.mp h with h | h
    · exact .inr ⟨_, h⟩
    · exact .inl ⟨_, _, h⟩
  case repeatForever => exact .inr ⟨_, h⟩
  case motorOnWithPower | setPower | waitSeconds | waitUntil | variableSet => exact .inl ⟨_, _, h⟩
  all_goals exact hvalue h

variable {g : Graph} {σ : Spelling}

theorem isGrouping_of_mem_slotNotes {spec : BlockSpec} {operands : Operands}
    {bodies : Bodies} (hn : n.Fitted g spec operands bodies)
    (hvalues : ∀ {slot t}, (slot, some t) ∈ operands → note ∈ (t.reading σ).notes →
      note.IsGrouping g σ) {slot : String} {required : Order}
    (h : note ∈ slotNotes n (readings σ operands) slot required) : note.IsGrouping g σ := by
  rcases slot_cases σ n hn.nodup_operands slot with ⟨t, hmem, -, -, hnotes, -⟩ | ⟨-, -, hnone⟩
  · rw [hnotes] at h
    rcases mem_append.mp h with h | h
    · exact hvalues hmem h
    · split at h
      · rw [mem_singleton.mp h]
        exact ⟨t, n, spec, slot, hn.operand hmem, hn.isValue hmem, hn.conforms,
          hn.operandNames ▸ mem_map_of_mem hmem, rfl⟩
      · cases h
  · rw [hnone required] at h
    cases h

theorem BlockTree.Sound.isGrouping_of_mem_reading (ht : t.Sound g) :
    note ∈ (t.reading σ).notes → note.IsGrouping g σ := by
  induction ht with
  | block hn ihop _ =>
    intro h
    obtain ⟨slot, required, h⟩ := exists_of_mem_valueNotes h
    exact isGrouping_of_mem_slotNotes hn ihop h

theorem exists_of_mem_chainNotes : ∀ {chain : List BlockTree}, note ∈ chainNotes σ chain →
    ∃ t ∈ chain, note ∈ t.notes σ
  | t :: rest, h => by
    rw [chainNotes, mem_append] at h
    rcases h with h | h
    · exact ⟨t, mem_cons_self, h⟩
    · obtain ⟨t', ht', h⟩ := exists_of_mem_chainNotes h
      exact ⟨t', mem_cons_of_mem _ ht', h⟩

theorem BlockTree.Sound.isGrouping_of_mem_notes (ht : t.Sound g) : note ∈ t.notes σ → note.IsGrouping g σ := by
  induction ht with
  | block hn _ ihbody =>
    intro h
    rw [BlockTree.notes] at h
    split at h
    · rcases exists_of_mem_nodeNotes h with ⟨slot, required, h⟩ | ⟨slot, h⟩
      · exact isGrouping_of_mem_slotNotes hn (fun hmem => (hn.operand hmem).isGrouping_of_mem_reading) h
      · rw [getD_bodyNotes] at h
        obtain ⟨t, ht, h⟩ := exists_of_mem_chainNotes h
        exact ihbody (mem_of_mem_chainAt ht) t ht h
    · cases h

end Notes

/-! ## Graphs -/

/-- **A plain graph**: no block has a remark, numbers are integers, and no enabled operation has an
enabled operation of its own class as its right operand. -/
structure Graph.Plain (g : Graph) : Prop where
  silent : ∀ n ∈ g.nodes, n.comment.bind Json.truthy? = none
  int : ∀ n ∈ g.nodes, n.kind = .number ∨ n.kind = .percent →
    ∃ k : Int, n.fields.get? "NUM" = some (.number (.int k))
  right : ∀ n ∈ g.nodes, ∀ m ∈ g.nodes, n.Holds "B" m.handle → n.enabled = true → m.enabled = true →
    ∀ {op op'}, n.operation? = some op → m.operation? = some op' → op'.order ≠ op.order

theorem operandRemarks_eq : ∀ {operands : Operands},
    (∀ {slot t}, (slot, some t) ∈ operands → t.remarks = "") → operandRemarks operands = ""
  | [], _ => rfl
  | (slot, none) :: rest, h => by
    rw [operandRemarks]
    exact operandRemarks_eq fun hmem => h (mem_cons_of_mem _ hmem)
  | (slot, some t) :: rest, h => by
    rw [operandRemarks, h mem_cons_self, operandRemarks_eq fun hmem => h (mem_cons_of_mem _ hmem)]
    rfl

theorem BlockTree.Sound.remarks_eq {g : Graph}
    (hsilent : ∀ {h n}, g.get? h = some n → n.remark = "") (ht : t.Sound g) : t.remarks = "" := by
  induction ht with
  | block hn ihop _ =>
    rw [BlockTree.remarks, hsilent hn.present, operandRemarks_eq ihop]
    rfl

namespace Generation

open Graph

variable {g : Graph} {r : Resolver}

theorem remark_eq (hg : g.Forest) (hplain : g.Plain) {h : Handle} (hn : g.get? h = some n) : n.remark = "" := by
  have hh := hg.handle_eq hn
  subst hh
  unfold Node.remark
  rw [hplain.silent n (hg.mem_nodes_iff_get?.mpr hn)]

theorem legible_of_mem_parts (hg : g.Forest) (hplain : g.Plain) (hheads : Heads g heads)
    (hallow : ∀ u ∈ namesOf (chainParts (treesOf g heads)), r.policy.Allows u) {p : BlockTree}
    (hp : p ∈ chainParts (treesOf g heads)) : p.Legible (spellingOf g r key heads) := by
  obtain ⟨h, hh, n, hx, hn, hen, rfl⟩ := (mem_parts_treesOf hg hheads).mp hp
  obtain ⟨-, spec, hc⟩ := hg.sound hn
  have hnode := hg.node_tree hn
  have hmem := hg.mem_nodes_iff_get?.mpr hn
  refine ⟨fun u hu => ?_, fun hneeds => ?_, ?_, ?_, ?_⟩
  · have hname : isName u.name = true := hc.isName_of_mem_names (hnode ▸ hu)
    exact isWord_spell hname (hallow u ⟨_, hp, hu⟩)
  · obtain ⟨k, hname⟩ := exists_boundName r key hp hneeds
    have hbound : (spellingOf g r key heads).bound (g.tree n).node.handle = boundName k :=
      congrArg (Option.getD · "") hname
    rw [hbound]
    exact isWord_boundName k
  · rw [hnode]
    exact hplain.int n hmem
  · rw [hnode, hg.tree_eq hn]
    intro op t op' hop ht hten hop'
    obtain ⟨⟨slot, s⟩, hs, heq⟩ := mem_map.mp ht
    injection heq with hslot htree
    obtain rfl : slot = "B" := hslot
    obtain ⟨m, hm, rfl⟩ := Option.map_eq_some_iff.mp htree
    obtain ⟨c, htarget, hm⟩ := Option.bind_eq_some_iff.mp hm
    have hhandle := hg.handle_eq hm
    subst hhandle
    rw [hg.node_tree hm] at hten hop'
    exact hplain.right n hmem m (hg.mem_nodes_iff_get?.mpr hm) (.value hs htarget) hen hten hop hop'
  · exact (hg.sound_tree hn).remarks_eq (remark_eq hg hplain)

/-! ## Texts -/

theorem getD_someText (s : String) : (someText s).getD "" = s := by
  unfold someText
  split
  · next h => exact (String.isEmpty_iff.mp h).symm
  · rfl

theorem code_blockReports (options : Options) (σ : Spelling) (margin : String) (t : BlockTree) :
    CodeReport.code (blockReports options σ margin t)
      = Text.prefixLines (stmtsText options.indent (t.stmts σ)) margin := by
  unfold blockReports
  rw [CodeReport.code_cons, code_warnings CodeNote.node CodeNote.text, append_empty]
  split
  · dsimp only
    rw [getD_someText]
  · next h =>
    obtain ⟨n, attached, operands, bodies⟩ := t
    have hdisabled : ¬ n.enabled = true := h
    rw [BlockTree.stmts, if_neg hdisabled]
    rfl

theorem showsText_blocks {σ : Spelling} (hm : ∀ c ∈ margin.toList, c.isWhitespace = true) : ∀ {ts : List BlockTree},
    (∀ t ∈ ts, ShowsStmts options.indent (t.stmts σ) (t.statementTrees σ)) →
      ShowsText (CodeReport.code (ts.flatMap (blockReports options σ margin))) (chainTrees σ ts)
  | [], _ => ⟨rfl, .nil⟩
  | t :: ts, h => by
    rw [flatMap_cons, CodeReport.code_append, code_blockReports, chainTrees]
    exact (ShowsText.prefixLines (h t mem_cons_self) hm).append
      (showsText_blocks hm fun t ht => h t (mem_cons_of_mem _ ht))

theorem showsText_declarations {s : Scope} (hwords : ∀ y ∈ s.names, IsWord y.plain)
    (hm : ∀ c ∈ margin.toList, c.isWhitespace = true) :
    ShowsText (s.declarations margin) (s.names.map fun y => .declare y.plain) := by
  unfold declarations
  split
  · next h =>
    rw [List.isEmpty_iff.mp h]
    exact ⟨rfl, .nil⟩
  · have hlines := ShowsText.declarations hm (s.names.map Name.plain) fun x hx => by
      obtain ⟨y, hy, rfl⟩ := mem_map.mp hx
      exact hwords y hy
    rw [List.map_map, List.map_map] at hlines
    have hend : ShowsText "\n" [] := ⟨by decide, .nil⟩
    have hall := hlines.append hend
    rw [append_nil] at hall
    exact hall

/-! ## Sections -/

theorem isWord_of_mem_scopeOf (hlegible : ∀ p ∈ chainParts (treesOf g heads), p.Legible (spellingOf g r key heads)) :
    ∀ y ∈ (scopeOf g r key heads).names, IsWord y.plain := by
  intro y hy
  rcases mem_sectionScope.mp hy with ⟨v, hv, rfl⟩ | ⟨loop, -, name, hname, rfl⟩
  · obtain ⟨p, hp, hv⟩ := mem_flatMap.mp hv
    obtain ⟨u, hu, rfl⟩ := mem_map.mp hv
    obtain ⟨hu, huse⟩ := mem_filter.mp hu
    have hword := (hlegible p hp).word u hu
    rw [beq_iff_eq.mp huse] at hword
    exact hword
  · obtain ⟨k, rfl⟩ := boundName_of_sectionScope hname
    exact isWord_boundName k

structure Clear (g : Graph) (r : Resolver) (key : ScopeKey) (heads : List Handle) : Prop where
  starts : Heads g heads
  legible : ∀ p ∈ chainParts (treesOf g heads), p.Legible (spellingOf g r key heads)
  notes : ∀ t ∈ treesOf g heads, t.notes (spellingOf g r key heads) = []

theorem Clear.showsText (hg : g.Forest) (hclear : Clear g r key heads)
    (hindent : ∀ c ∈ options.indent.toList, c.isWhitespace = true)
    (hm : ∀ c ∈ margin.toList, c.isWhitespace = true) :
    ShowsText ((scopeOf g r key heads).declarations margin
      ++ CodeReport.code (chainReports g r options key margin heads)) (sectionTrees g r key heads) := by
  refine (showsText_declarations (isWord_of_mem_scopeOf hclear.legible) hm).append
    (showsText_blocks hm fun t ht => ?_)
  obtain ⟨hsound, hren⟩ := hclear.starts.trees hg t ht
  exact hsound.shows_stmts hindent hren
    (fun p hp => hclear.legible p (mem_chainParts.mpr ⟨t, ht, hp⟩)) (hclear.notes t ht)

theorem code_taskReports (options : Options) (t : TaskHead) : CodeReport.code (taskReports g r options t)
      = taskRemark g t ++ ("task " ++ t.name ++ "()\n\x7b\n"
        ++ ((scopeOf g r t.key t.heads).declarations options.indent
          ++ CodeReport.code (chainReports g r options t.key options.indent t.heads)) ++ "\x7d\n") := by
  unfold taskReports
  rw [cons_append, CodeReport.code_cons, CodeReport.code_append, CodeReport.code_cons]
  show taskRemark g t ++ "task " ++ t.name ++ "()\n\x7b\n" ++ _ ++ (_ ++ ("\x7d\n" ++ "")) = _
  simp only [append_empty, String.append_assoc]

def Unnoted (reports : List CodeReport) : Prop :=
  ∀ report ∈ reports, ∀ code kind slot, report.warning ≠ some (groupingNote code kind slot)

theorem Unnoted.mono {reports reports' : List CodeReport} (h : Unnoted reports')
    (hsub : reports ⊆ reports') : Unnoted reports :=
  fun report hreport => h report (hsub hreport)

theorem clear_of_unnoted (hg : g.Forest) (hplain : g.Plain) (hheads : Heads g heads)
    (hallow : ∀ u ∈ namesOf (chainParts (treesOf g heads)), r.policy.Allows u)
    (hnotes : Unnoted (chainReports g r options key margin heads)) : Clear g r key heads where
  starts := hheads
  legible p hp := legible_of_mem_parts hg hplain hheads hallow hp
  notes t ht := by
    refine List.eq_nil_iff_forall_not_mem.mpr fun note hnote => ?_
    obtain ⟨_, _, _, _, -, -, -, -, htext⟩ := (hheads.trees hg t ht).1.isGrouping_of_mem_notes hnote
    refine hnotes (.warn note.node note.text) (mem_flatMap.mpr ⟨t, ht, ?_⟩) _ _ _ (congrArg some htext)
    exact mem_cons_of_mem _ (mem_map_of_mem hnote)

theorem isWord_entryName : IsWord entryName := ⟨by decide, by decide⟩

theorem isWord_taskOf (hg : g.Forest) (hn : g.get? n.handle = some n)
    (hk : n.kind = .mainTask ∨ n.kind = .namedTask ∧ n.text "NAME" ≠ "")
    (hallow : n.kind = .namedTask → r.policy.Allows ⟨n.text "NAME", .task⟩) : IsWord (taskOf r n).name := by
  obtain ⟨-, spec, hc⟩ := hg.sound hn
  have hknown := hc.known
  unfold taskOf
  dsimp only
  rcases hk with hk | ⟨hk, hne⟩
  · rw [hk]
    exact isWord_entryName
  · rw [hk] at hknown ⊢
    cases hknown
    have hname := (hc.identifier mem_cons_self rfl).2.resolve_left fun h => hne h.1
    exact isWord_spell hname (hallow hk)

theorem showsItems_section (hg : g.Forest) (hplain : g.Plain)
    (hindent : ∀ c ∈ options.indent.toList, c.isWhitespace = true) {sec : Section}
    (hready : Ready g sec) (hpreamble : sec.isPreamble = false)
    (hallow : ∀ u ∈ sectionNames g sec, r.policy.Allows u) (hnotes : Unnoted (sectionReports g r options sec)) :
    ShowsItems (CodeReport.code (sectionReports g r options sec)) (itemTrees g r sec) := by
  -- a task with its declarations and its blocks
  have htask : ∀ {t : TaskHead}, taskRemark g t = "" → IsWord t.name → Heads g t.heads →
      (∀ u ∈ namesOf (chainParts (treesOf g t.heads)), r.policy.Allows u) →
      Unnoted (taskReports g r options t) →
      ShowsItems (CodeReport.code (taskReports g r options t)) [.task t.name (sectionTrees g r t.key t.heads)] := by
    intro t hremark hword hheads hallow hnotes
    have hclear : Clear g r t.key t.heads := clear_of_unnoted hg hplain hheads hallow
      (hnotes.mono fun report hreport => mem_append_left _ (mem_cons_of_mem _ hreport))
    rw [code_taskReports, hremark, empty_append]
    exact .task hword (hclear.showsText hg hindent hindent)
  cases hready with
  | preamble text => cases hpreamble
  | @global loose hheads =>
    have hclear : Clear g r .global loose := clear_of_unnoted hg hplain hheads hallow
      (hnotes.mono (subset_cons_self _ _))
    rw [sectionReports, CodeReport.code_cons]
    unfold globalHeader
    rw [getD_someText]
    exact .of_text (hclear.showsText hg hindent (by simp))
  | @task n hn hk =>
    have hreports : sectionReports g r options (.task n.handle) = taskReports g r options (taskOf r n) := by
      rw [sectionReports, hn]
      rfl
    have hitems : itemTrees g r (.task n.handle)
        = [.task (taskOf r n).name (sectionTrees g r (taskOf r n).key (taskOf r n).heads)] := by
      rw [itemTrees, hn]
      rfl
    have hremark : taskRemark g (taskOf r n) = "" := by
      show ((g.get? n.handle).map Node.remark).getD "" = ""
      rw [hn]
      exact remark_eq hg hplain hn
    rw [hreports] at hnotes ⊢
    rw [hitems]
    exact htask hremark (isWord_taskOf hg hn hk fun hk => hallow _ ⟨n, hn, .inl ⟨hk, rfl⟩⟩)
      (heads_task hg hn (hk.imp id (·.1))) (fun u hu => hallow u ⟨n, hn, .inr hu⟩) hnotes
  | @main loose hheads =>
    exact htask rfl isWord_entryName hheads hallow hnotes

/-! ## Programs -/

theorem showsItems_sections : ∀ {ss : List Section},
    (∀ sec ∈ ss, ShowsItems (CodeReport.code (sectionReports g r options sec)) (itemTrees g r sec)) →
      ShowsItems (CodeReport.code (sectionsReports g r options ss)) (ss.flatMap (itemTrees g r))
  | [], _ => .blank rfl rfl
  | [sec], h => by
    rw [sectionsReports, flatMap_singleton]
    exact h sec mem_cons_self
  | sec :: sec' :: rest, h => by
    rw [sectionsReports, flatMap_cons, CodeReport.code_append, CodeReport.code_cons]
    · have hline : ShowsItems "\n" [] := .blank (by decide) (by decide)
      have hrest := showsItems_sections fun x hx => h x (mem_cons_of_mem _ hx)
      exact (h sec mem_cons_self).append (hline.append hrest)
    · exact cons_ne_nil _ _

theorem code_programReports (g : Graph) (options : Options) : CodeReport.code (programReports g options)
      = CodeReport.code (sectionsReports g (g.resolver options.policy) options
        (sections options (g.plan (g.resolver options.policy)))) := by
  have hskipped := code_warnings Prod.fst Prod.snd (g.plan (g.resolver options.policy)).skipped
  unfold programReports
  dsimp only
  rw [CodeReport.code_append, cons_append, CodeReport.code_cons, CodeReport.code_append, hskipped, empty_append]
  exact (append_empty).trans empty_append

theorem code_eq_ok {text : String} (h : code g options = .ok text) :
    (run g options).2 = none ∧ text = CodeReport.code (run g options).1 := by
  unfold code at h
  split at h
  · next hrun =>
    rw [hrun]
    exact ⟨rfl, (Except.ok.inj h).symm⟩
  · cases h

/-- **The program of a graph is read back as its blocks describe it.** Take a graph that commands lead to,
whose blocks have no remarks, hold integers where they hold numbers and whose operations have no right
operand of their own class, and an indentation of blanks and tabs and no preamble. If the program can be
generated, without a note about an operand that binds too loosely, then its text, cut into tokens and
parsed with the precedences of C, gives the declarations, statements and tasks that the blocks describe. -/
theorem parse_code (hg : g.Reachable) (hplain : g.Plain) (options : Options)
    (hindent : ∀ c ∈ options.indent.toList, c = ' ' ∨ c = '\t') (hpreamble : options.preamble = "")
    {text : String} (hcode : code g options = .ok text) (hnotes : Unnoted (run g options).1) :
    parse text = some (programTrees g options) := by
  have hforest := hg.forest
  have hblank : ∀ c ∈ options.indent.toList, c.isWhitespace = true := fun c hc => by
    rcases hindent c hc with rfl | rfl <;> decide
  obtain ⟨hnone, rfl⟩ := code_eq_ok hcode
  rcases run_outcome hforest options with ⟨hallow, hrun⟩ | ⟨u, -, -, hrun⟩ | ⟨n, -, -, hrun⟩
  · rw [hrun] at hnotes ⊢
    rw [code_programReports]
    refine (showsItems_sections fun sec hsec => ?_).parse_eq
    have hplanned : sec.isPreamble = false := by
      rcases mem_sections_iff.mp hsec with ⟨hne, rfl⟩ | ⟨-, -, rfl⟩ | ⟨root, -, rfl⟩ | ⟨-, rfl⟩
      · rw [hpreamble] at hne
        cases hne
      · rfl
      · rfl
      · rfl
    exact showsItems_section hforest hplain hblank (ready_sections hforest options sec hsec) hplanned
      (fun u hu => hallow u (.inr ⟨sec, hsec, hu⟩))
      (hnotes.mono fun report hreport => List.mem_append_left _
        (List.mem_append_right _ (sectionReports_subset hsec hreport)))
  · rw [hrun] at hnone
    cases hnone
  · rw [hrun] at hnone
    cases hnone

def isWhole : Option Json → Bool
  | some (.number (.int _)) => true
  | _ => false

/-- A loop that ends when a variable is below `-3`, with a conditional in it, is read back. -/
theorem parse_code_loop :
    let g := (Editor.run {} [.create "main_task" {}, .create "repeat_until" {},
      .connectStatement 1 "STATEMENTS" 2, .create "compare" { fields := [("OP", .text "LT")] },
      .connectValue 2 "CONDITION" 3, .create "variable_get" {}, .connectValue 3 "A" 4,
      .create "number" { fields := [("NUM", .int (-3))] }, .connectValue 3 "B" 5,
      .create "if" { mutation := [("has_else", .bool true)] }, .connectStatement 2 "DO" 6,
      .create "variable_set" {}, .connectStatement 6 "ELSE" 7]).graph
    let text := "task main()\n\x7b\n  int x;\n\n  do \x7b\n    if (false) \x7b\n    \x7d else \x7b\n"
      ++ "      x = 0;\n    \x7d\n  \x7d while (!(x < -3));\n\x7d\n"
    g.Reachable ∧ g.Plain ∧ Unnoted (run g {}).1 ∧ code g {} = .ok text
      ∧ parse text = some (programTrees g {}) := by
  intro g text
  have hreach : g.Reachable := reachable_run .empty _
  have hsilent : ∀ n ∈ g.nodes, (n.comment.bind Json.truthy?).isNone = true := by decide +kernel
  have hint : ∀ n ∈ g.nodes, n.kind = .number ∨ n.kind = .percent →
      isWhole (n.fields.get? "NUM") = true := by decide +kernel
  have hright : ∀ n ∈ g.nodes, n.operation? = none ∨ ∀ m ∈ g.nodes, n.at? "B" = some m.handle →
      m.operation? = none := by decide +kernel
  have hplain : g.Plain := by
    refine ⟨fun n hn => Option.isNone_iff_eq_none.mp (hsilent n hn), fun n hn hk => ?_,
      fun n hn m hm hholds _ _ op op' hop hop' => ?_⟩
    · have h := hint n hn hk
      unfold isWhole at h
      split at h
      · next k hk => exact ⟨k, hk⟩
      · cases h
    · obtain ⟨-, spec, hc⟩ := hreach.forest.sound (hreach.forest.mem_nodes_iff_get?.mp hn)
      rcases hright n hn with h | h
      · rw [hop] at h
        cases h
      · rw [h m hm ((Node.holds_iff hc).mp hholds)] at hop'
        cases hop'
  have hwarnings : ∀ report ∈ (run g {}).1, report.warning = none := by decide +kernel
  have hnotes : Unnoted (run g {}).1 := by
    intro report hreport code kind slot h
    rw [hwarnings report hreport] at h
    cases h
  have hcode : code g {} = .ok text := by
    have h : (code g {}).toOption = some text := by decide +kernel
    cases hc : code g {} with
    | error e =>
      rw [hc] at h
      cases h
    | ok t =>
      rw [hc] at h
      exact congrArg Except.ok (Option.some.inj h)
  have hindent : ({} : Options).indent.toList.all (fun c => c = ' ' ∨ c = '\t') = true := by decide
  refine ⟨hreach, hplain, hnotes, hcode, ?_⟩
  exact parse_code hreach hplain {} (fun c hc => of_decide_eq_true (List.all_eq_true.mp hindent c hc)) rfl
    hcode hnotes

end Generation

end NqcBlocks
