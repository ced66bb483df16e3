import NqcBlocks.Proofs.Program.Listing
import NqcBlocks.Proofs.Program.Reference

/-!
# The lines of a section

What a section looks like is said by its record (`SectionRecord.text`): the remark of the task, its header, a
brace, the declarations and an empty row if there are any, the statements, and a brace. The loose blocks beside
a main task have no header and no braces.
-/

namespace NqcBlocks

open Nqc Text Gen List Option String

variable {n : Node} {heads : List Handle} {sec : Section} {margin : String}

/-! ## Declarations and tasks -/

def ScopeKey.taskName : ScopeKey → String
  | .main => entryName
  | .global => ""
  | .task name => name

def taskText (options : Options) (remark : String) (s : Scope) (code : List Stmt) : String :=
  remark ++ ("task " ++ s.key.taskName ++ "()\n\x7b\n" ++ (s.declarations options.indent
    ++ Text.prefixLines (stmtsText options.indent code) options.indent) ++ "\x7d\n")

def SectionRecord.text (g : Graph) (options : Options) (record : SectionRecord) : String :=
  match record.part, record.opened with
  | .preamble text, _ => Generation.endLine text
  | .global _, some s => s.declarations "" ++ stmtsText options.indent record.code
  | .task root, some s =>
    taskText options (((g.get? root).map Node.remark).getD "") s record.code
  | .main _, some s => taskText options "" s record.code
  | _, none => ""

def declarationLines (depth : Nat) (s : Scope) : List Line :=
  s.names.map (fun name => { depth, code := "int " ++ name.plain ++ ";" })
    ++ if s.names = [] then [] else [{ code := "" }]

def taskLines (owner : Option BlockTree) (name : String) (s : Scope) (body : List Line) : List Line :=
  { owner, code := "task " ++ name ++ "()" } :: { code := "\x7b" }
    :: (declarationLines 1 s ++ body.map Line.inner ++ [{ code := "\x7d" }])

theorem Written.flat_at (hm : ∀ c ∈ margin.toList, IsMargin c) {code : String} (h : IsCode code)
    (hinline : Inline code) (depth : Nat) :
    Written IsPlain margin (indentation margin depth ++ code ++ "\n") [{ depth, code }] depth depth where
  text := by
    rw [toList_append, ← setIn_eq hm h.unbroken depth, rowsOf_cons, rowsOf_nil, append_nil]
    show _ = unrows [setIn margin.toList depth code.toList]
    rw [unrows_cons]
    rfl
  codes := List.forall_mem_singleton.mpr h.toIsPlain
  nested := by
    refine .cons (.inr ⟨h.ne_empty, ?_⟩) (bracesAfter_of_isInline hinline depth) .nil
    have hcloses := closesFirst_of_inline hinline "" fun hnil => h.ne_empty (String.toList_eq_nil_iff.mp hnil)
    rw [append_empty] at hcloses
    exact congrArg (depth + ·) hcloses

theorem isPlain_empty : IsPlain "" := ⟨by decide, by decide, fun h => absurd rfl h⟩

theorem isCode_declaration {name : String} (h : Inline name) : IsCode ("int " ++ name ++ ";") := by
  refine IsPlain.isCode ?_ (by decide)
  rw [String.append_assoc]
  exact isPlain_append (by decide) (by decide) (Unbroken.append h.plain (by decide))

theorem written_declarations (hm : ∀ c ∈ margin.toList, IsMargin c) {s : Scope}
    (hs : ∀ name ∈ s.names, Inline name.plain) (depth : Nat) :
    Written IsPlain margin (s.declarations (indentation margin depth)) (declarationLines depth s) depth depth := by
  have hjoin : ∀ names : List Name, (∀ name ∈ names, Inline name.plain) →
      Written IsPlain margin (String.join (names.map fun name =>
          indentation margin depth ++ "int " ++ name.plain ++ ";\n"))
        (names.map fun name => { depth, code := "int " ++ name.plain ++ ";" }) depth depth := by
    intro names hnames
    induction names with
    | nil => exact .nil
    | cons name names ih =>
      obtain ⟨hname, hnames⟩ := forall_mem_cons.mp hnames
      have hinline : Inline ("int " ++ name.plain ++ ";") := (Inline.append (by decide) hname).append (by decide)
      have htext : indentation margin depth ++ "int " ++ name.plain ++ ";\n"
          = indentation margin depth ++ ("int " ++ name.plain ++ ";") ++ "\n" := by
        have hend : (";\n" : String) = ";" ++ "\n" := rfl
        rw [hend]
        simp only [String.append_assoc]
      rw [map_cons, map_cons, join_cons, htext]
      exact (Written.flat_at hm (isCode_declaration hname) hinline depth).append (ih hnames)
  unfold Scope.declarations declarationLines
  cases hnames : s.names with
  | nil => exact .nil
  | cons name names =>
    have hblank : Written IsPlain margin ("" ++ "\n") [{ code := "" }] depth depth :=
      .line isPlain_empty (fun h => absurd rfl h) rfl
    rw [if_neg (by simp), if_neg (cons_ne_nil _ _)]
    exact (hjoin _ (hnames ▸ hs)).append hblank

theorem isPlain_header {name : String} (h : Inline name) : IsPlain ("task " ++ name ++ "()") := by
  rw [String.append_assoc]
  exact isPlain_append (by decide) (by decide) (Unbroken.append h.plain (by decide))

theorem isCode_brace : IsCode "\x7b" := ⟨⟨by decide, by decide, fun _ => by decide⟩, by decide⟩

theorem written_task {options : Options} (hm : ∀ c ∈ options.indent.toList, IsMargin c) {s : Scope}
    (hs : ∀ name ∈ s.names, Inline name.plain) (hname : Inline s.key.taskName) {code : List Stmt}
    {body : List Line} (hbody : Written IsCode options.indent (stmtsText options.indent code) body)
    (owner : Option BlockTree) :
    Written IsPlain options.indent (taskText options ((owner.map BlockTree.remarks).getD "") s code)
      (taskLines owner s.key.taskName s body) := by
  have hdeclarations := written_declarations hm hs 1
  rw [indentation, indentation, append_empty] at hdeclarations
  have hheader : Written IsPlain options.indent ("task " ++ s.key.taskName ++ "()" ++ "\n")
      [{ code := "task " ++ s.key.taskName ++ "()" }] :=
    .flat (isPlain_header hname) ((Inline.append (by decide) hname).append (by decide))
  have hopen : Written IsPlain options.indent ("\x7b" ++ "\n") [{ code := "\x7b" }] 0 1 :=
    .line isCode_brace.toIsPlain (fun _ => by decide) (by decide)
  have hclose : Written IsPlain options.indent ("\x7d" ++ "" ++ "\n") [{ code := "\x7d" ++ "" }] 1 :=
    .closing isCode_close.toIsPlain (by decide)
  have hall : Written IsPlain options.indent (taskText options "" s code) (taskLines none s.key.taskName s body) := by
    have h := hheader.append (hopen.append ((hdeclarations.append (hbody.prefixLines hm).plain).append hclose))
    have hstart : ("()\n\x7b\n" : String) = "()" ++ "\n" ++ ("\x7b" ++ "\n") := rfl
    have hend : ("\x7d\n" : String) = "\x7d" ++ "" ++ "\n" := rfl
    unfold taskText taskLines
    rw [hstart, hend, empty_append]
    simp only [String.append_assoc] at h ⊢
    exact h
  cases owner with
  | none => exact hall
  | some t =>
    have hremark : taskText options t.remarks s code = t.remarks ++ taskText options "" s code := by
      unfold taskText
      rw [empty_append]
    show Written IsPlain options.indent (taskText options t.remarks s code) _
    rw [hremark]
    exact hall.start t

namespace Generation

open Graph

/-! ## Sections -/

def blockLines (g : Graph) (r : Resolver) (key : ScopeKey) (heads : List Handle) : List Line :=
  chainLines (spellingOf g r key heads) (treesOf g heads)

def sectionLines (g : Graph) (r : Resolver) : Section → List Line
  | .preamble _ => []
  | .global loose => declarationLines 0 (scopeOf g r .global loose) ++ blockLines g r .global loose
  | .task root => ((g.get? root).map fun n => taskLines (g.tree n) (taskOf r n).name
      (scopeOf g r (taskOf r n).key (taskOf r n).heads)
      (blockLines g r (taskOf r n).key (taskOf r n).heads)).getD []
  | .main loose => taskLines none entryName (scopeOf g r .main loose) (blockLines g r .main loose)

def joinLines : List (List Line) → List Line
  | [] => []
  | [ls] => ls
  | ls :: ls' :: rest => ls ++ { code := "" } :: joinLines (ls' :: rest)

def programLines (g : Graph) (options : Options) : List Line :=
  let r := g.resolver options.policy
  joinLines ((sections options (g.plan r)).map (sectionLines g r))

variable {g : Graph} {r : Resolver} {options : Options}

theorem written_tree (hg : g.Forest) (hm : ∀ c ∈ options.indent.toList, IsMargin c)
    (hheads : Heads g heads) (key : ScopeKey) {t : BlockTree} (ht : t ∈ treesOf g heads) :
    Written IsCode options.indent (stmtsText options.indent (t.stmts (spellingOf g r key heads)))
      (t.lines (spellingOf g r key heads)) := by
  obtain ⟨hsound, hren⟩ := hheads.trees hg t ht
  have hnamed : (spellingOf g r key heads).Named := r.isName_spell
  refine hsound.written hm hnamed hren fun p hp hcounter => ?_
  have hpart : p ∈ chainParts (treesOf g heads) := mem_chainParts.mpr ⟨t, ht, hp⟩
  obtain ⟨k, hname⟩ := exists_boundName r key hpart hcounter
  have hbound : (spellingOf g r key heads).bound p.node.handle = Scope.boundName k :=
    congrArg (Option.getD · "") hname
  rw [hbound]
  exact (Scope.isWord_boundName k).1

theorem written_blocks (hg : g.Forest) (hm : ∀ c ∈ options.indent.toList, IsMargin c)
    (hheads : Heads g heads) (key : ScopeKey) :
    Written IsCode options.indent (stmtsText options.indent
      (chainStmts (spellingOf g r key heads) (treesOf g heads))) (blockLines g r key heads) :=
  written_chainLines fun _ ht => written_tree hg hm hheads key ht

theorem code_chainReports (hg : g.Forest) (hheads : Heads g heads) (key : ScopeKey)
    (hindent : ∀ c ∈ options.indent.toList, IsMargin c) (margin : String) :
    CodeReport.code (chainReports g r options key margin heads) = Text.prefixLines (stmtsText options.indent
          (chainStmts (spellingOf g r key heads) (treesOf g heads))) margin := by
  have hwritten := fun t ht => written_tree (r := r) (t := t) hg hindent hheads key ht
  unfold chainReports
  generalize spellingOf g r key heads = σ at hwritten
  revert hwritten
  induction treesOf g heads with
  | nil => exact fun _ => rfl
  | cons t ts ih =>
    intro hwritten
    obtain ⟨ht, hts⟩ := forall_mem_cons.mp hwritten
    rw [flatMap_cons, CodeReport.code_append, code_blockReports, ih hts, chainStmts, stmtsText_append,
      ht.prefixLines_append hindent (written_chainLines hts)]

theorem inline_scopeOf (hg : g.Forest) (hheads : Heads g heads) (key : ScopeKey) :
    ∀ y ∈ (scopeOf g r key heads).names, Inline y.plain := by
  intro y hy
  rcases mem_sectionScope.mp hy with ⟨v, hv, rfl⟩ | ⟨loop, -, name, hname, rfl⟩
  · obtain ⟨p, hp, hv⟩ := mem_flatMap.mp hv
    obtain ⟨-, -, n, -, hn, -, rfl⟩ := (mem_parts_treesOf hg hheads).mp hp
    obtain ⟨u, hu, rfl⟩ := List.mem_map.mp hv
    obtain ⟨-, spec, hc⟩ := hg.sound hn
    rw [hg.node_tree hn] at hu
    exact inline_of_isName (r.isName_spell _ (hc.isName_of_mem_names (mem_filter.mp hu).1))
  · obtain ⟨k, rfl⟩ := boundName_of_sectionScope hname
    exact inline_of_isName (Scope.isWord_boundName k).1

theorem taskName_key (r : Resolver) (n : Node) : (taskOf r n).key.taskName = (taskOf r n).name := by
  unfold taskOf
  cases n.kind <;> rfl

theorem code_taskReports_eq (hg : g.Forest) (hindent : ∀ c ∈ options.indent.toList, IsMargin c)
    {t : TaskHead} (hheads : Heads g t.heads) (hkey : t.key.taskName = t.name) :
    CodeReport.code (taskReports g r options t) = taskText options (taskRemark g t) (scopeOf g r t.key t.heads)
        (chainStmts (spellingOf g r t.key t.heads) (treesOf g t.heads)) := by
  have hscope : (scopeOf g r t.key t.heads).key = t.key := key_sectionScope _ _ _
  rw [code_taskReports, code_chainReports hg hheads t.key hindent, taskText, hscope, hkey]

theorem text_of_ready (hg : g.Forest) (hindent : ∀ c ∈ options.indent.toList, IsMargin c)
    {sec : Section} (hsec : Ready g sec) (hpreamble : sec.isPreamble = false) :
    (sectionRecords g r sec).map (·.text g options) = [CodeReport.code (sectionReports g r options sec)] := by
  cases hsec with
  | preamble text => cases hpreamble
  | @global loose hheads =>
    have hzero : ∀ s : String, Text.prefixLines s "" = s := by
      intro s
      rw [← toList_inj, Text.prefixLines, toList_ofList]
      simpa [flatMap_def] using Text.flatten_splitLines s.toList
    rw [sectionReports, CodeReport.code_cons, code_chainReports hg hheads .global hindent, hzero]
    unfold globalHeader
    rw [getD_someText]
    rfl
  | @task n hn hk =>
    have hheads : Heads g (taskOf r n).heads := heads_task hg hn (hk.imp id (·.1))
    rw [sectionRecords, sectionReports, hn, map_some, getD_some, map_some,
      getD_some, code_taskReports_eq hg hindent hheads (taskName_key r n)]
    rfl
  | @main loose hheads =>
    rw [sectionReports, code_taskReports_eq (t := looseHead loose) hg hindent hheads rfl]
    rfl

theorem inline_entryName : Inline entryName := by decide

theorem inline_taskOf (hg : g.Forest) {h : Handle} (hn : g.get? h = some n)
    (hk : n.kind = .mainTask ∨ n.kind = .namedTask ∧ n.text "NAME" ≠ "") : Inline (taskOf r n).name := by
  obtain ⟨-, spec, hc⟩ := hg.sound hn
  have hknown := hc.known
  unfold taskOf
  dsimp only
  rcases hk with hk | ⟨hk, hne⟩
  · rw [hk]
    exact inline_entryName
  · rw [hk] at hknown ⊢
    cases hknown
    exact inline_of_isName (r.isName_spell _ ((hc.identifier mem_cons_self rfl).2.resolve_left fun h => hne h.1))

theorem remarks_task (hg : g.Forest) (hn : g.get? n.handle = some n)
    (hk : n.kind = .mainTask ∨ n.kind = .namedTask) : (g.tree n).remarks = n.remark := by
  obtain ⟨-, spec, hc⟩ := hg.sound hn
  have hslots : n.valueSlots.names = [] := by
    have hknown := hc.known
    rcases hk with hk | hk <;> rw [hk] at hknown <;> cases hknown <;> exact (hc.slotNames rfl).1
  rw [hg.tree_eq hn, map_eq_nil_iff.mp hslots, BlockTree.remarks, map_nil, operandRemarks, append_empty]

theorem taskName_scopeOf (g : Graph) (r : Resolver) (key : ScopeKey) (heads : List Handle) :
    (scopeOf g r key heads).key.taskName = key.taskName :=
  congrArg ScopeKey.taskName (key_sectionScope _ _ _)

theorem written_section (hg : g.Forest) (hm : ∀ c ∈ options.indent.toList, IsMargin c)
    (hsec : Ready g sec) (hpreamble : sec.isPreamble = false) :
    Written IsPlain options.indent (CodeReport.code (sectionReports g r options sec)) (sectionLines g r sec) := by
  have htext := text_of_ready (r := r) hg hm hsec hpreamble
  cases hsec with
  | preamble text => cases hpreamble
  | @global loose hheads =>
    rw [← List.singleton_inj.mp htext]
    exact (written_declarations hm (inline_scopeOf hg hheads .global) 0).append
      (written_blocks hg hm hheads .global).plain
  | @main loose hheads =>
    have hkey : (scopeOf g r .main loose).key.taskName = entryName := taskName_scopeOf _ _ _ _
    have hname : Inline (scopeOf g r .main loose).key.taskName := hkey ▸ inline_entryName
    have hall := written_task hm (inline_scopeOf hg hheads .main) hname
      (written_blocks (r := r) hg hm hheads .main) none
    rw [hkey] at hall
    rw [← List.singleton_inj.mp htext]
    exact hall
  | @task n hn hk =>
    have hheads : Heads g (taskOf r n).heads := heads_task hg hn (hk.imp id (·.1))
    have hkey : (scopeOf g r (taskOf r n).key (taskOf r n).heads).key.taskName = (taskOf r n).name :=
      (taskName_scopeOf _ _ _ _).trans (taskName_key r n)
    have hname : Inline (scopeOf g r (taskOf r n).key (taskOf r n).heads).key.taskName :=
      hkey ▸ inline_taskOf hg hn hk
    have hall := written_task hm (inline_scopeOf hg hheads (taskOf r n).key) hname
      (written_blocks (r := r) hg hm hheads (taskOf r n).key) (some (g.tree n))
    rw [sectionRecords, hn] at htext
    rw [← List.singleton_inj.mp htext, sectionLines, hn]
    rw [hkey] at hall
    show Written IsPlain options.indent (taskText options (((g.get? n.handle).map Node.remark).getD "") _ _) _
    rw [hn]
    show Written IsPlain options.indent (taskText options n.remark _ _) _
    rw [← remarks_task hg hn (hk.imp id (·.1))]
    exact hall

theorem written_intercalate {α : Type} {text : α → String} {lines : α → List Line} :
    ∀ {xs : List α}, (∀ x ∈ xs, Written IsPlain options.indent (text x) (lines x)) →
      Written IsPlain options.indent ("\n".intercalate (xs.map text)) (joinLines (xs.map lines))
  | [], _ => .nil
  | [x], h => by
    rw [map_singleton, map_singleton, String.intercalate_singleton]
    exact h x mem_cons_self
  | x :: x' :: xs, h => by
    have hrest := written_intercalate fun y hy => h y (mem_cons_of_mem x hy)
    have hempty : Written IsPlain options.indent ("" ++ "\n") [{ code := "" }] := .flat isPlain_empty (by decide)
    rw [empty_append] at hempty
    rw [map_cons, map_cons, String.intercalate_cons_cons, String.append_assoc, ← map_cons]
    exact (h x mem_cons_self).append (hempty.append hrest)

end Generation

end NqcBlocks
