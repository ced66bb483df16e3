import NqcBlocks.Proofs.Program.SectionLines

/-!
# The shape of a program

A program is its sections with an empty row between any two. Which sections there are and in which order
is said by the plan; what a section looks like is said by its record (`SectionRecord.text`).
-/

namespace NqcBlocks

open Nqc Text Gen List Option String

variable {names names' : List String} {n : Node} {text' : String} {heads : List Handle} {p : Plan}

/-! ## Headers -/

def headerName? (row : List Char) : Option String :=
  if "task ".toList.isPrefixOf row && "()".toList.isSuffixOf row then
    some (String.ofList ((row.drop 5).take (row.length - 7)))
  else none

def taskHeaders (text : String) : List String := (rowChars text).filterMap headerName?

theorem headerName?_header (name : String) : headerName? ("task " ++ name ++ "()").toList = some name := by
  have hrow : ("task " ++ name ++ "()").toList = "task ".toList ++ (name.toList ++ "()".toList) := by
    rw [toList_append, toList_append, List.append_assoc]
  have hstarts : "task ".toList.isPrefixOf ("task " ++ name ++ "()").toList = true :=
    isPrefixOf_iff_prefix.mpr ⟨_, hrow.symm⟩
  have hends : "()".toList.isSuffixOf ("task " ++ name ++ "()").toList = true :=
    isSuffixOf_iff_suffix.mpr ⟨("task " ++ name).toList, toList_append.symm⟩
  unfold headerName?
  rw [hstarts, hends, hrow]
  have hlength : ("task ".toList ++ (name.toList ++ "()".toList)).length - 7 = name.toList.length := by
    simp only [List.length_append]
    show 5 + (name.toList.length + 2) - 7 = name.toList.length
    omega
  have hdrop : ("task ".toList ++ (name.toList ++ "()".toList)).drop 5 = name.toList ++ "()".toList := rfl
  rw [hlength, hdrop, take_left, ofList_toList]
  rfl

variable {row : List Char} {text : String}

theorem headerName?_of_isRemark (h : IsRemark row) : headerName? row = none := by
  unfold headerName?
  rw [if_neg]
  rw [Bool.and_eq_true, isPrefixOf_iff_prefix]
  rintro ⟨⟨rest, hstart⟩, -⟩
  -- a remark starts with a blank or a slash
  obtain ⟨blanks, more, rfl, hblanks, -⟩ := h
  cases blanks with
  | nil =>
    have hhead := congrArg head? hstart
    cases hhead
  | cons b blanks =>
    have hhead : some 't' = some b := congrArg head? hstart
    rw [← Option.some.inj hhead] at hblanks
    exact absurd (hblanks 't' mem_cons_self) (by unfold IsMargin; decide)

theorem headerName?_of_ends (h : row.getLast?.any isEnd = true) : headerName? row = none := by
  unfold headerName?
  rw [if_neg]
  rw [Bool.and_eq_true, isSuffixOf_iff_suffix]
  rintro ⟨-, front, hend⟩
  rw [← hend, getLast?_append] at h
  cases h

theorem headers_rowsOf {margin : String} (hm : ∀ c ∈ margin.toList, IsMargin c) {ls : List Line}
    (h : ∀ l ∈ ls, IsCode l.code) : (rowsOf margin ls).filterMap headerName? = [] := by
  rw [filterMap_eq_nil_iff]
  intro row hrow
  obtain ⟨l, hl, hrow⟩ := mem_flatMap.mp hrow
  rcases l.mem_rows hm (h l hl).unbroken hrow with hremark | rfl
  · exact headerName?_of_isRemark hremark
  · refine headerName?_of_ends ?_
    have hends := (h l hl).ends
    rw [toList_append, getLast?_append]
    cases hlast : l.code.toList.getLast? with
    | none =>
      rw [hlast] at hends
      cases hends
    | some c =>
      rw [hlast] at hends
      exact hends

/-! ## Passages -/

/-- **Rows that neither start nor end with an empty one** and have no two empty ones together. -/
structure Solid (ls : List (List Char)) : Prop where
  feeds : ∀ l ∈ ls, '\n' ∉ l
  starts : ∃ l ∈ ls.head?, l ≠ []
  ends : ∃ l ∈ ls.getLast?, l ≠ []
  apart : ls.IsChain fun a b => a ≠ [] ∨ b ≠ []

section Solid

variable {ls ls' : List (List Char)}

theorem Solid.of_forall (hne : ls ≠ []) (h : ∀ l ∈ ls, l ≠ [] ∧ '\n' ∉ l) : Solid ls where
  feeds l hl := (h l hl).2
  starts := ⟨_, head?_eq_some_head hne, (h _ (head_mem hne)).1⟩
  ends := ⟨_, getLast?_eq_some_getLast hne, (h _ (getLast_mem hne)).1⟩
  apart := by
    have hall : ls.Pairwise fun a b => a ≠ [] ∨ b ≠ [] := pairwise_of_forall_mem_list fun a ha b _ => .inl (h a ha).1
    exact hall.isChain

theorem Solid.blank (h : Solid ls) (h' : Solid ls') : Solid (ls ++ [] :: ls') := by
  obtain ⟨hfeeds, ⟨first, hfirst, hne⟩, ⟨last, hlast, hlne⟩, hapart⟩ := h
  obtain ⟨hfeeds', ⟨first', hfirst', hne'⟩, ⟨last', hlast', hlne'⟩, hapart'⟩ := h'
  refine ⟨?_, ⟨first, ?_, hne⟩, ⟨last', ?_, hlne'⟩, ?_⟩
  · intro l hl
    rw [mem_append, mem_cons] at hl
    rcases hl with hl | rfl | hl
    · exact hfeeds l hl
    · exact not_mem_nil
    · exact hfeeds' l hl
  · rw [head?_append, mem_def.mp hfirst]
    rfl
  · rw [getLast?_append, getLast?_cons, mem_def.mp hlast']
    rfl
  · rw [isChain_append]
    refine ⟨hapart, List.isChain_cons.mpr ⟨fun l hl => .inr ?_, hapart'⟩, fun a ha b _ => .inl ?_⟩
    · rw [mem_def, mem_def.mp hfirst'] at hl
      cases hl
      exact hne'
    · rw [mem_def, mem_def.mp hlast] at ha
      cases ha
      exact hlne

end Solid

/-- **A passage**: a text made of solid rows, with the headers of some tasks. -/
structure Passage (text : String) (names : List String) : Prop where
  whole : text.toList = unrows (rowChars text)
  solid : Solid (rowChars text)
  headers : taskHeaders text = names

theorem Passage.of_rows {ls : List (List Char)} (htext : text.toList = unrows ls)
    (hsolid : Solid ls) (hheaders : ls.filterMap headerName? = names) : Passage text names := by
  have hrows := rowChars_eq htext hsolid.feeds
  exact ⟨by rw [hrows, htext], by rw [hrows]; exact hsolid, by rw [taskHeaders, hrows, hheaders]⟩

theorem rowChars_join (h : Passage text names) (h' : Passage text' names') :
    (text ++ "\n" ++ text').toList = unrows (rowChars text ++ [] :: rowChars text')
      ∧ Solid (rowChars text ++ [] :: rowChars text') := by
  refine ⟨?_, h.solid.blank h'.solid⟩
  have hfeed : "\n".toList = ['\n'] := rfl
  rw [toList_append, toList_append, h.whole, h'.whole, unrows_append, unrows_cons, hfeed,
    ← h.whole, ← h'.whole, List.append_assoc]
  rfl

theorem Passage.join (h : Passage text names) (h' : Passage text' names') :
    Passage (text ++ "\n" ++ text') (names ++ names') := by
  obtain ⟨htext, hsolid⟩ := rowChars_join h h'
  refine .of_rows htext hsolid ?_
  have hblank : headerName? [] = none := rfl
  rw [filterMap_append, filterMap_cons_none hblank]
  exact congrArg₂ _ h.headers h'.headers

theorem Passage.getLast?_join (h : Passage text names) (h' : Passage text' names') :
    (rowChars (text ++ "\n" ++ text')).getLast? = (rowChars text').getLast? := by
  obtain ⟨htext, hsolid⟩ := rowChars_join h h'
  obtain ⟨last, hlast, -⟩ := h'.solid.ends
  rw [rowChars_eq htext hsolid.feeds, getLast?_append, getLast?_cons, mem_def.mp hlast]
  rfl

theorem Passage.rows_spec (h : Passage text names) :
    (∃ row ∈ (rows text).head?, row ≠ "") ∧ (∃ row ∈ (rows text).getLast?, row ≠ "")
      ∧ ((rows text).IsChain fun a b => a ≠ "" ∨ b ≠ "") ∧ text.toList.getLast? = some '\n' := by
  obtain ⟨hwhole, ⟨-, ⟨first, hfirst, hne⟩, ⟨last, hlast, hlne⟩, hapart⟩, -⟩ := h
  have hempty : ∀ {l : List Char}, l ≠ [] → ofList l ≠ "" := by
    intro l hl h
    have hnil := String.toList_eq_nil_iff.mpr h
    rw [toList_ofList] at hnil
    exact hl hnil
  rw [rows_eq, head?_map, getLast?_map, mem_def.mp hfirst, mem_def.mp hlast, isChain_map]
  refine ⟨⟨_, rfl, hempty hne⟩, ⟨_, rfl, hempty hlne⟩, ?_, ?_⟩
  · exact hapart.imp fun a b h => h.imp hempty hempty
  · obtain ⟨front, hfront⟩ := List.getLast?_eq_some_iff.mp hlast
    rw [hwhole, hfront, unrows_append, unrows_cons, unrows_nil, getLast?_append]
    simp

/-! ## Sections -/

section Lines

variable {margin name : String} {s : Scope} {front body : List Line} {depth : Nat}

theorem solid_rowsOf (hm : ∀ c ∈ margin.toList, IsMargin c) {ls : List Line} (hne : ls ≠ [])
    (h : ∀ l ∈ ls, IsPlain l.code ∧ l.code ≠ "") : Solid (rowsOf margin ls) := by
  refine .of_forall (fun hnil => ?_) fun row hrow => ?_
  · obtain ⟨l, rest, rfl⟩ := exists_cons_of_ne_nil hne
    rw [rowsOf_cons, append_eq_nil_iff, Line.rows, map_eq_nil_iff] at hnil
    exact append_ne_nil_of_right_ne_nil _ (cons_ne_nil _ _) hnil.1
  · obtain ⟨l, hl, hrow⟩ := mem_flatMap.mp hrow
    obtain ⟨hplain, hcode⟩ := h l hl
    refine ⟨?_, l.notMem_rows hm hplain.unbroken row hrow⟩
    rcases l.mem_rows hm hplain.unbroken hrow with hremark | rfl
    · exact hremark.ne_nil
    · rw [toList_append]
      exact append_ne_nil_of_right_ne_nil _ (mt String.toList_eq_nil_iff.mp hcode)

theorem solid_declarations (front : List Line) (hm : ∀ c ∈ margin.toList, IsMargin c) (hs : ∀ y ∈ s.names, Inline y.plain)
    (hfront : ∀ l ∈ front, IsPlain l.code ∧ l.code ≠ "") (hbody : ∀ l ∈ body, IsCode l.code)
    (hne : body ≠ []) : Solid (rowsOf margin (front ++ declarationLines depth s ++ body)) := by
  have hbody : ∀ l ∈ body, IsPlain l.code ∧ l.code ≠ "" := fun l hl =>
    ⟨(hbody l hl).toIsPlain, (hbody l hl).ne_empty⟩
  unfold declarationLines
  split
  · next hnames =>
    rw [hnames, map_nil, append_nil, append_nil]
    exact solid_rowsOf hm (append_ne_nil_of_right_ne_nil _ hne) (forall_mem_append.mpr ⟨hfront, hbody⟩)
  · next hnames =>
    have habove : ∀ l ∈ front ++ s.names.map fun name => ({ depth, code := "int " ++ name.plain ++ ";" } : Line),
        IsPlain l.code ∧ l.code ≠ "" := by
      refine forall_mem_append.mpr ⟨hfront, fun l hl => ?_⟩
      obtain ⟨y, hy, rfl⟩ := List.mem_map.mp hl
      exact ⟨(isCode_declaration (hs y hy)).toIsPlain, (isCode_declaration (hs y hy)).ne_empty⟩
    rw [← List.append_assoc, List.append_assoc, rowsOf_append]
    exact (solid_rowsOf hm (append_ne_nil_of_right_ne_nil _ (mt map_eq_nil_iff.mp hnames)) habove).blank
      (solid_rowsOf hm hne hbody)

theorem headers_declarations (front : List Line) (hm : ∀ c ∈ margin.toList, IsMargin c) (hs : ∀ y ∈ s.names, Inline y.plain)
    (hbody : ∀ l ∈ body, IsCode l.code) :
    (rowsOf margin (front ++ declarationLines depth s ++ body)).filterMap headerName?
      = (rowsOf margin front).filterMap headerName? := by
  have hdecls : (rowsOf margin (s.names.map fun name =>
      ({ depth, code := "int " ++ name.plain ++ ";" } : Line))).filterMap headerName? = [] := by
    refine headers_rowsOf hm fun l hl => ?_
    obtain ⟨y, hy, rfl⟩ := List.mem_map.mp hl
    exact isCode_declaration (hs y hy)
  have hblank : (rowsOf margin (if s.names = [] then [] else [{ code := "" }])).filterMap headerName? = [] := by
    split <;> rfl
  simp only [declarationLines, rowsOf_append, filterMap_append, hdecls, hblank, headers_rowsOf hm hbody, append_nil]

theorem solid_taskLines (hm : ∀ c ∈ margin.toList, IsMargin c) (hs : ∀ y ∈ s.names, Inline y.plain)
    (hname : Inline name) (hbody : ∀ l ∈ body, IsCode l.code) (owner : Option BlockTree) :
    Solid (rowsOf margin (taskLines owner name s body))
      ∧ (rowsOf margin (taskLines owner name s body)).filterMap headerName? = [name]
      ∧ (rowsOf margin (taskLines owner name s body)).getLast? = some ['\x7d'] := by
  have hlines : taskLines owner name s body
      = [{ owner, code := "task " ++ name ++ "()" }, { code := "\x7b" }] ++ declarationLines 1 s
        ++ (body.map Line.inner ++ [{ code := "\x7d" }]) := by
    rw [taskLines, List.append_assoc, List.append_assoc]
    rfl
  have hrest : ∀ l ∈ body.map Line.inner ++ [{ code := "\x7d" }], IsCode l.code := by
    refine forall_mem_append.mpr ⟨fun l hl => ?_, List.forall_mem_singleton.mpr isCode_close⟩
    obtain ⟨outer, houter, rfl⟩ := List.mem_map.mp hl
    exact hbody outer houter
  rw [hlines]
  refine ⟨solid_declarations _ hm hs ?_ hrest (by simp), ?_, ?_⟩
  · refine forall_mem_cons.mpr ⟨⟨isPlain_header hname, fun hempty => ?_⟩, List.forall_mem_singleton.mpr
      ⟨isCode_brace.toIsPlain, isCode_brace.ne_empty⟩⟩
    have hnil := String.toList_eq_nil_iff.mpr hempty
    rw [String.append_assoc, toList_append] at hnil
    cases hnil
  · have hremarks : (({ owner, code := "" } : Line).remarks.map String.toList).filterMap headerName? = [] := by
      rw [filterMap_eq_nil_iff]
      intro row hrow
      obtain ⟨text, htext, rfl⟩ := List.mem_map.mp hrow
      exact headerName?_of_isRemark (Line.isRemark_of_mem_remarks htext)
    have hheader : ({ owner, code := "task " ++ name ++ "()" } : Line).rows margin
        = ({ owner, code := "" } : Line).remarks.map String.toList ++ [("task " ++ name ++ "()").toList] :=
      map_append
    have hbrace : (rowsOf margin [{ code := "\x7b" }]).filterMap headerName? = [] :=
      headers_rowsOf hm (List.forall_mem_singleton.mpr isCode_brace)
    rw [headers_declarations _ hm hs hrest, rowsOf_cons, filterMap_append, hbrace, hheader,
      filterMap_append, hremarks, filterMap_cons_some (headerName?_header name)]
    rfl
  · rw [rowsOf_append, rowsOf_append (body.map Line.inner), ← List.append_assoc, getLast?_append]
    rfl

end Lines

/-! ## The sections of a graph -/

namespace Generation

open Graph

variable {g : Graph} {r : Resolver} {options : Options}

def taskName (g : Graph) (r : Resolver) (root : Handle) : String :=
  ((g.get? root).map fun n => (taskOf r n).name).getD ""

def sectionTasks (g : Graph) (r : Resolver) : Section → List String
  | .preamble _ | .global _ => []
  | .task root => [taskName g r root]
  | .main _ => [entryName]

theorem blockLines_loose_ne_nil (hg : g.Forest) (hne : (g.plan r).loose ≠ []) (key : ScopeKey) :
    blockLines g r key (g.plan r).loose ≠ [] := by
  obtain ⟨h, rest, hloose⟩ := exists_cons_of_ne_nil hne
  obtain ⟨n, ⟨hn, hen, -⟩, rfl⟩ := hg.mem_plan_loose.mp (hloose ▸ mem_cons_self)
  have htrees : treesOf g (g.plan r).loose = g.tree n :: (g.trees n.next ++ treesOf g rest) := by
    rw [hloose]
    show g.headTrees n.handle ++ treesOf g rest = _
    rw [hg.headTrees_eq hn, hg.trees_eq hn]
    rfl
  obtain ⟨hsound, hren⟩ := (heads_loose (r := r) hg).trees hg (g.tree n) (htrees ▸ mem_cons_self)
  have hfirst := hsound.lines_ne_nil (σ := spellingOf g r key (g.plan r).loose) hren (by rwa [hg.node_tree hn])
  rw [blockLines, htrees, chainLines]
  exact append_ne_nil_of_left_ne_nil hfirst _

theorem passage_section (hg : g.Forest) (hindent : ∀ c ∈ options.indent.toList, IsMargin c)
    {sec : Section} (hsec : sec ∈ sections options (g.plan r)) (hpreamble : sec.isPreamble = false) :
    Passage (CodeReport.code (sectionReports g r options sec)) (sectionTasks g r sec)
      ∧ ((∀ loose, sec ≠ .global loose) →
        (rowChars (CodeReport.code (sectionReports g r options sec))).getLast? = some ['\x7d']) := by
  have hready := ready_sections hg options sec hsec
  have hwritten := written_section (r := r) hg hindent hready hpreamble
  have hrows := rowChars_eq hwritten.text (hwritten.notMem hindent)
  cases hready with
  | preamble text => cases hpreamble
  | @global loose hheads =>
    refine ⟨?_, fun h => absurd rfl (h loose)⟩
    obtain ⟨hne, rfl⟩ : loose ≠ [] ∧ loose = (g.plan r).loose := by
      rcases mem_sections_iff.mp hsec with ⟨-, h⟩ | ⟨hne, -, h⟩ | ⟨_, -, h⟩ | ⟨-, h⟩ <;> cases h
      exact ⟨hne, rfl⟩
    have hcodes := (written_blocks (r := r) hg hindent hheads .global).codes
    have hscope := inline_scopeOf (r := r) hg hheads .global
    rw [sectionLines] at hwritten
    have hsolid : Solid (rowsOf options.indent ([] ++ declarationLines 0 _ ++ _)) :=
      solid_declarations [] hindent hscope (forall_mem_nil _) hcodes (blockLines_loose_ne_nil hg hne .global)
    have hheaders : (rowsOf options.indent ([] ++ declarationLines 0 _ ++ _)).filterMap headerName? = _ :=
      headers_declarations [] hindent hscope hcodes
    rw [nil_append] at hsolid hheaders
    exact .of_rows hwritten.text hsolid hheaders
  | @task n hn hk =>
    have hheads : Heads g (taskOf r n).heads := heads_task hg hn (hk.imp id (·.1))
    obtain ⟨hsolid, hheaders, hlast⟩ := solid_taskLines hindent (inline_scopeOf hg hheads (taskOf r n).key)
      (inline_taskOf hg hn hk) (written_blocks (r := r) hg hindent hheads (taskOf r n).key).codes
      (some (g.tree n))
    have hlines : sectionLines g r (.task n.handle) = taskLines (g.tree n) (taskOf r n).name
        (scopeOf g r (taskOf r n).key (taskOf r n).heads)
        (blockLines g r (taskOf r n).key (taskOf r n).heads) := by
      rw [sectionLines, hn]
      rfl
    have htasks : sectionTasks g r (.task n.handle) = [(taskOf r n).name] := by
      rw [sectionTasks, taskName, hn]
      rfl
    rw [hlines] at hwritten hrows
    rw [htasks]
    exact ⟨.of_rows hwritten.text hsolid hheaders, fun _ => hrows ▸ hlast⟩
  | @main loose hheads =>
    obtain ⟨hsolid, hheaders, hlast⟩ := solid_taskLines hindent (inline_scopeOf (r := r) hg hheads .main)
      inline_entryName (written_blocks (r := r) hg hindent hheads .main).codes none
    exact ⟨.of_rows hwritten.text hsolid hheaders, fun _ => hrows ▸ hlast⟩

/-! ## Programs -/

theorem code_sectionsReports : ∀ ss : List Section, CodeReport.code (sectionsReports g r options ss)
      = "\n".intercalate (ss.map fun sec => CodeReport.code (sectionReports g r options sec))
  | [] => rfl
  | [sec] => by
    rw [sectionsReports, map_singleton, String.intercalate_singleton]
  | sec :: sec' :: rest => by
    rw [sectionsReports, CodeReport.code_append, CodeReport.code_cons, code_sectionsReports (sec' :: rest)]
    · simp only [map_cons, String.intercalate_cons_cons, String.append_assoc]
      rfl
    · exact cons_ne_nil _ _

theorem passage_intercalate {α : Type} {text : α → String} {names : α → List String} :
    ∀ {xs : List α}, (∀ x ∈ xs, Passage (text x) (names x)) → ∀ {last : α}, last ∈ xs.getLast? →
      Passage ("\n".intercalate (xs.map text)) (xs.flatMap names)
        ∧ (rowChars ("\n".intercalate (xs.map text))).getLast? = (rowChars (text last)).getLast?
  | [x], h, last, hlast => by
    cases hlast
    rw [map_singleton, String.intercalate_singleton, flatMap_singleton]
    exact ⟨h _ mem_cons_self, rfl⟩
  | x :: x' :: xs, h, last, hlast => by
    rw [getLast?_cons_cons] at hlast
    obtain ⟨hpassage, hend⟩ := passage_intercalate (fun y hy => h y (mem_cons_of_mem _ hy)) hlast
    have hfirst := h x mem_cons_self
    rw [map_cons] at hpassage hend
    rw [map_cons, map_cons, String.intercalate_cons_cons, flatMap_cons]
    exact ⟨hfirst.join hpassage, (hfirst.getLast?_join hpassage).trans hend⟩

theorem map_text_records (hg : g.Forest) (hindent : ∀ c ∈ options.indent.toList, IsMargin c) :
    ∀ {ss : List Section}, (∀ sec ∈ ss, Ready g sec ∧ sec.isPreamble = false) →
      (ss.flatMap (sectionRecords g r)).map (·.text g options)
        = ss.map fun sec => CodeReport.code (sectionReports g r options sec)
  | [], _ => rfl
  | sec :: rest, h => by
    obtain ⟨hready, hpreamble⟩ := h sec mem_cons_self
    rw [flatMap_cons, map_append, text_of_ready hg hindent hready hpreamble,
      map_text_records hg hindent fun x hx => h x (mem_cons_of_mem _ hx)]
    rfl

end Generation

/-! ## The tasks of the plan -/

theorem Plan.tasks_put (r : Resolver) (p : Plan) (seen : List String) (n : Node) :
    ∃ own, (put r p seen n).1.tasks = p.tasks ++ own ∧ own.Sublist [n.handle] := by
  have hnone : ∀ {q : Plan}, q.tasks = p.tasks → ∃ own, q.tasks = p.tasks ++ own
      ∧ own.Sublist [n.handle] := fun h => ⟨[], by rw [h, append_nil], nil_sublist _⟩
  have hown : ∀ {q : Plan}, q.tasks = p.tasks ++ [n.handle] → ∃ own, q.tasks = p.tasks ++ own
      ∧ own.Sublist [n.handle] := fun h => ⟨[n.handle], h, List.Sublist.refl _⟩
  unfold put
  split
  · split
    · split
      · exact hnone rfl
      · exact hown rfl
    · split
      · exact hnone rfl
      · split
        · exact hnone rfl
        · exact hown rfl
    · exact hnone rfl
  · exact hnone rfl

theorem Plan.tasks_putAll (r : Resolver) : ∀ (ns : List Node) (p : Plan) (seen : List String),
    ∃ own, (putAll r p seen ns).tasks = p.tasks ++ own ∧ own.Sublist (ns.map (·.handle))
  | [], p, _ => ⟨[], (append_nil _).symm, List.Sublist.refl _⟩
  | n :: ns, p, seen => by
    obtain ⟨first, hfirst, hsub⟩ := tasks_put r p seen n
    obtain ⟨own, hown, hrest⟩ := tasks_putAll r ns (put r p seen n).1 (put r p seen n).2
    exact ⟨first ++ own, by rw [putAll, hown, hfirst, List.append_assoc], hsub.append hrest⟩

namespace Graph

def TaskCalled (g : Graph) (policy : ReservedPolicy) (h : Handle) (w : String) : Prop :=
  ∃ n, g.get? h = some n
    ∧ (n.kind = .mainTask ∧ w = entryName
      ∨ n.kind = .namedTask ∧ ∃ names, (g.resolver policy).resolve .task (n.text "NAME") = .ok (w, names))

theorem hasMain_plan (g : Graph) (r : Resolver) : (g.plan r).hasMain = true
    ↔ ∃ n ∈ g.topBlocks, n.kind = .mainTask ∧ n.enabled = true := by
  unfold plan
  rw [Plan.hasMain_putAll]
  constructor
  · rintro (h | ⟨n, hn, hen, hk⟩)
    · cases h
    · exact ⟨n, hn, hk, hen⟩
  · rintro ⟨n, hn, hk, hen⟩
    exact .inr ⟨n, hn, hen, hk⟩

namespace Forest

variable {g : Graph} {r : Resolver}

theorem sorted_plan_tasks (hg : g.Forest) : (g.plan r).tasks.Pairwise (· < ·) := by
  obtain ⟨own, hown, hsub⟩ := Plan.tasks_putAll r g.topBlocks {} []
  have htasks : (g.plan r).tasks = own := hown
  rw [htasks]
  exact hg.sorted_nodes.sublist (hsub.trans (List.filter_sublist.map _))

theorem exists_planned_main (hg : g.Forest) (h : (g.plan r).hasMain = true) :
    ∃ n, g.Planned n ∧ n.kind = .mainTask := by
  obtain ⟨n, hn, hk, hen⟩ := (g.hasMain_plan r).mp h
  obtain ⟨m, hm, ⟨hmk, hmen⟩, hfirst⟩ := exists_first
    (P := fun m => m.kind = .mainTask ∧ m.enabled = true) (mem_filter.mp hn).1 ⟨hk, hen⟩
  exact ⟨m, ⟨hg.mem_nodes_iff_get?.mp hm, hmen, .inl ⟨hmk, fun k hk hken hkk =>
    hfirst k (hg.mem_nodes_iff_get?.mpr hk) ⟨hkk, hken⟩⟩⟩, hmk⟩

end Forest

end Graph

namespace Generation

open Graph

variable {g : Graph} {options : Options}

theorem taskName_cases (hg : g.Forest)
    (hallow : ∀ u ∈ programNames g options, options.policy.Allows u) (hn : g.Planned n) :
    (n.kind = .mainTask ∧ taskName g (g.resolver options.policy) n.handle = entryName)
      ∨ n.kind = .namedTask
        ∧ taskName g (g.resolver options.policy) n.handle = (g.resolver options.policy).spell .task (n.text "NAME")
        ∧ (∃ names, (g.resolver options.policy).resolve .task (n.text "NAME")
            = .ok (taskName g (g.resolver options.policy) n.handle, names))
        ∧ taskName g (g.resolver options.policy) n.handle ≠ entryName := by
  unfold taskName
  rw [hn.1, map_some, getD_some]
  unfold taskOf
  rcases hn.2.2 with ⟨hk, -⟩ | ⟨hk, -⟩
  · rw [hk]
    exact .inl ⟨rfl, rfl⟩
  · have hallowed := allows_of_planned hg hallow hn hk
    have hfree := Resolver.forbids_spell (r := g.resolver options.policy) hallowed
    rw [hk]
    refine .inr ⟨rfl, rfl, (resolve_eq_ok_iff hallowed).mpr rfl, fun heq => ?_⟩
    have heq : (g.resolver options.policy).spell .task (n.text "NAME") = entryName := heq
    rw [heq] at hfree
    cases hfree

theorem taskName_injective (hg : g.Forest)
    (hallow : ∀ u ∈ programNames g options, options.policy.Allows u) {m : Node} (hn : g.Planned n)
    (hm : g.Planned m) (h : taskName g (g.resolver options.policy) n.handle
      = taskName g (g.resolver options.policy) m.handle) : n.handle = m.handle := by
  rcases taskName_cases hg hallow hn with ⟨hnk, hnw⟩ | ⟨hnk, hnw, -, hne⟩ <;>
    rcases taskName_cases hg hallow hm with ⟨hmk, hmw⟩ | ⟨hmk, hmw, -, hme⟩
  · exact Nat.le_antisymm (hn.main_le hnk hm hmk) (hm.main_le hmk hn hnk)
  · exact absurd (h.symm.trans hnw) hme
  · exact absurd (h.trans hmw) hne
  · have hname : n.text "NAME" = m.text "NAME" := Resolver.spell_injective
      (name_of_planned hg hn hnk) (name_of_planned hg hm hmk) (hnw.symm.trans (h.trans hmw))
    exact Nat.le_antisymm ((hn.named hnk).2 m hm hmk hname.symm) ((hm.named hmk).2 n hn hnk hname)

/-- **The shape of a program** with a plan, records of its sections and a text. -/
structure Shaped (g : Graph) (options : Options) (p : Plan) (records : List SectionRecord)
    (text : String) : Prop where
  tasks : ∀ h, h ∈ p.tasks ↔ ∃ n, g.Planned n ∧ h = n.handle
  ordered : p.tasks.Pairwise (· < ·)
  loose : ∀ h, h ∈ p.loose ↔ ∃ n, g.Loose n ∧ h = n.handle
  hasMain : p.hasMain = true ↔ ∃ n ∈ g.topBlocks, n.kind = .mainTask ∧ n.enabled = true
  headers : ∃ names, List.Forall₂ (g.TaskCalled options.policy) p.tasks names
    ∧ taskHeaders text = names ++ if p.hasMain then [] else [entryName]
  distinct : (taskHeaders text).Nodup
  entry : (taskHeaders text).count entryName = 1
  parts : records.map (·.part)
    = if p.hasMain then (if p.loose = [] then [] else [.global p.loose]) ++ p.tasks.map .task
      else p.tasks.map .task ++ [.main p.loose]
  written : ∀ n, g.Loose n → ∀ sec, (sec ∈ records.map (·.part) ∧ sec.Writes g n
    ↔ sec = if p.hasMain then .global p.loose else .main p.loose)
  code : ∀ record ∈ records, ∃ s heads, record.opened = some s
    ∧ (∀ h, h ∈ heads ↔ record.part.Starts g h)
    ∧ record.code = chainStmts (.ofScope (g.resolver options.policy) s) (treesOf g heads)
  joined : text = "\n".intercalate (records.map (·.text g options))
  sections : ∀ record ∈ records, (record.text g options).toList.getLast? = some '\n'
    ∧ (∃ row ∈ (rows (record.text g options)).head?, row ≠ "")
    ∧ ∃ row ∈ (rows (record.text g options)).getLast?, row ≠ ""
  apart : (rows text).IsChain fun a b => a ≠ "" ∨ b ≠ ""
  starts : ∃ row ∈ (rows text).head?, row ≠ ""
  ends : (rows text).getLast? = some "\x7d" ∧ text.toList.getLast? = some '\n'

/-! ## Programs without a preamble -/

section Shape

variable {text : String}

theorem sections_eq (hpreamble : options.preamble = "") : sections options p
    = if p.hasMain then (if p.loose = [] then [] else [.global p.loose]) ++ p.tasks.map .task
      else p.tasks.map .task ++ [.main p.loose] := by
  unfold sections
  rw [hpreamble]
  cases p.hasMain <;> cases p.loose <;> simp

theorem isPreamble_of_mem_sections (hpreamble : options.preamble = "") :
    ∀ sec ∈ sections options p, sec.isPreamble = false := by
  intro sec hsec
  rcases mem_sections_iff.mp hsec with ⟨hne, -⟩ | ⟨-, -, rfl⟩ | ⟨_, -, rfl⟩ | ⟨-, rfl⟩
  · rw [hpreamble] at hne
    cases hne
  all_goals rfl

theorem exists_last_section (hg : g.Forest) (r : Resolver) (hpreamble : options.preamble = "") :
    ∃ last ∈ (sections options (g.plan r)).getLast?, ∀ loose, last ≠ .global loose := by
  rw [sections_eq hpreamble]
  cases hmain : (g.plan r).hasMain with
  | false => exact ⟨.main (g.plan r).loose, by simp, nofun⟩
  | true =>
    obtain ⟨n, hn, -⟩ := hg.exists_planned_main hmain
    have hne : (g.plan r).tasks ≠ [] := ne_nil_of_mem (hg.mem_plan_tasks.mpr ⟨n, hn, rfl⟩)
    obtain ⟨front, root, hroot⟩ := (eq_nil_or_concat (g.plan r).tasks).resolve_left hne
    refine ⟨.task root, ?_, nofun⟩
    simp [hroot]

theorem flatMap_sectionTasks (r : Resolver) (hpreamble : options.preamble = "") :
    (sections options p).flatMap (sectionTasks g r)
      = p.tasks.map (taskName g r) ++ if p.hasMain then [] else [entryName] := by
  have htasks : (p.tasks.map Section.task).flatMap (sectionTasks g r) = p.tasks.map (taskName g r) := by
    rw [flatMap_map, map_eq_flatMap]
    rfl
  rw [sections_eq hpreamble]
  cases p.hasMain with
  | false =>
    rw [if_neg (by decide), if_neg (by decide), flatMap_append, htasks]
    rfl
  | true =>
    rw [if_pos rfl, if_pos rfl, flatMap_append, htasks, append_nil]
    split <;> rfl

theorem nodup_taskNames (hg : g.Forest) (hallow : ∀ u ∈ programNames g options, options.policy.Allows u) :
    let p := g.plan (g.resolver options.policy)
    let names := p.tasks.map (taskName g (g.resolver options.policy)) ++ if p.hasMain then [] else [entryName]
    names.Nodup ∧ entryName ∈ names := by
  intro p names
  have hplanned : ∀ h ∈ p.tasks, ∃ n, g.Planned n ∧ h = n.handle := fun h hh =>
    hg.mem_plan_tasks.mp hh
  have hnodup : (p.tasks.map (taskName g (g.resolver options.policy))).Nodup := by
    refine List.Nodup.map_on ?_ (hg.sorted_plan_tasks.imp Nat.ne_of_lt)
    intro h hh h' hh' heq
    obtain ⟨n, hn, rfl⟩ := hplanned h hh
    obtain ⟨m, hm, rfl⟩ := hplanned h' hh'
    exact taskName_injective hg hallow hn hm heq
  cases hmain : p.hasMain with
  | true =>
    obtain ⟨n, hn, hk⟩ := hg.exists_planned_main hmain
    have hname : taskName g (g.resolver options.policy) n.handle = entryName := by
      rcases taskName_cases hg hallow hn with ⟨-, hw⟩ | ⟨hk', -⟩
      · exact hw
      · rw [hk] at hk'
        cases hk'
    have hnames : names = p.tasks.map (taskName g (g.resolver options.policy)) := by
      simp [names, hmain]
    rw [hnames]
    exact ⟨hnodup, List.mem_map.mpr ⟨n.handle, hg.mem_plan_tasks.mpr ⟨n, hn, rfl⟩, hname⟩⟩
  | false =>
    have hnames : names = p.tasks.map (taskName g (g.resolver options.policy)) ++ [entryName] := by
      simp [names, hmain]
    rw [hnames]
    refine ⟨nodup_append.mpr ⟨hnodup, nodup_singleton _, ?_⟩, by simp⟩
    intro w hw w' hw' heq
    rw [mem_singleton.mp hw'] at heq
    obtain ⟨h, hh, rfl⟩ := List.mem_map.mp hw
    obtain ⟨n, hn, rfl⟩ := hplanned h hh
    rcases taskName_cases hg hallow hn with ⟨hk, -⟩ | ⟨-, -, -, hne⟩
    · -- a planned main task is an enabled one
      have hyes := (g.hasMain_plan (g.resolver options.policy)).mpr
        ⟨n, hg.mem_topBlocks_of_isTask hn.1 (.inl hk), hk, hn.2.1⟩
      exact absurd (hyes.symm.trans hmain) nofun
    · exact hne heq

theorem writes_loose_iff (hg : g.Forest) (r : Resolver) (hn : g.Loose n) (sec : Section) :
    sec ∈ sections options (g.plan r) ∧ sec.Writes g n
      ↔ sec = if (g.plan r).hasMain then .global (g.plan r).loose else .main (g.plan r).loose := by
  have hloose : n.handle ∈ (g.plan r).loose := hg.mem_plan_loose.mpr ⟨n, hn, rfl⟩
  have hne := ne_nil_of_mem hloose
  obtain ⟨own, ⟨hown, hwrites⟩, hunique⟩ := hg.existsUnique_section r options (.inr hn)
  have hplace : ∀ {place : Section}, place ∈ sections options (g.plan r) → place.loose? = some (g.plan r).loose →
        (sec ∈ sections options (g.plan r) ∧ sec.Writes g n ↔ sec = place) := by
    intro place hmem hof
    have hpw : place.Writes g n := .inr ⟨hn.1, hn.2.1, _, Section.starts_of_loose? hof hloose, .refl⟩
    constructor
    · rintro ⟨hsec, hw⟩
      rw [hunique sec ⟨hsec, hw⟩, hunique place ⟨hmem, hpw⟩]
    · rintro rfl
      exact ⟨hmem, hpw⟩
  cases hmain : (g.plan r).hasMain with
  | true => exact hplace (mem_sections_iff.mpr (.inr (.inl ⟨hne, hmain, rfl⟩))) rfl
  | false => exact hplace (mem_sections_iff.mpr (.inr (.inr (.inr ⟨hmain, rfl⟩)))) rfl

/-- **A program has the shape that its plan says.** Take a graph that commands lead to, an indentation of
blanks and tabs and no preamble. If the program can be generated, its tasks are those of the plan in
order of creation, and last a main task made of the loose blocks exactly if no enabled main task stands on
its own. Their names are all different and one of them is that of the entry point. Loose blocks beside a
main task come before all tasks, and else are in the main task made of them. There is exactly one empty
row between two sections, there are nowhere two of them together, and the text does not start with one
and ends with a row that is a brace. -/
theorem shaped_of_code (hg : g.Reachable) (options : Options)
    (hindent : ∀ c ∈ options.indent.toList, c = ' ' ∨ c = '\t') (hpreamble : options.preamble = "")
    (hcode : code g options = .ok text) :
    ∃ p records c, exec (recordProgram g) (.start options) = (.ok (p, records), c)
      ∧ text = CodeReport.code c.reports ∧ Shaped g options p records text := by
  have hforest := hg.forest
  obtain ⟨hrun, htext⟩ := code_eq_ok hcode
  obtain ⟨hallow, hreports, c, hexec, hctx⟩ := exec_of_run hforest hrun
  rw [hreports] at htext
  let r := g.resolver options.policy
  let p := g.plan r
  have hplain := isPreamble_of_mem_sections (p := p) hpreamble
  have hready := ready_sections (r := r) hforest options
  have hparts : (programRecords g options).map (·.part) = sections options p := by
    have hfilter := parts_of_records (r := r) hforest hready
    rwa [List.filter_eq_self.mpr fun sec hsec => by rw [hplain sec hsec]; rfl] at hfilter
  have htexts : (programRecords g options).map (·.text g options)
      = (sections options p).map fun sec => CodeReport.code (sectionReports g r options sec) :=
    map_text_records hforest hindent fun sec hsec => ⟨hready sec hsec, hplain sec hsec⟩
  have hjoined : text = "\n".intercalate ((programRecords g options).map (·.text g options)) := by
    rw [htexts, htext, code_programReports, code_sectionsReports]
  have hpassages := fun sec (hsec : sec ∈ sections options p) =>
    passage_section (r := r) hforest hindent hsec (hplain sec hsec)
  obtain ⟨last, hlast, hglobal⟩ := exists_last_section hforest r hpreamble
  obtain ⟨hpassage, hend⟩ := passage_intercalate (fun sec hsec => (hpassages sec hsec).1) hlast
  rw [← htexts, ← hjoined, flatMap_sectionTasks r hpreamble] at hpassage
  rw [← htexts, ← hjoined, (hpassages last (List.mem_of_getLast? hlast)).2 hglobal] at hend
  obtain ⟨hstarts, -, hapart, hfeed⟩ := hpassage.rows_spec
  obtain ⟨hnodup, hentry⟩ := nodup_taskNames hforest hallow
  refine ⟨p, programRecords g options, c, hexec, htext.trans (by rw [hctx]), ?_⟩
  exact {
    tasks := fun h => hforest.mem_plan_tasks
    ordered := hforest.sorted_plan_tasks
    loose := fun h => hforest.mem_plan_loose
    hasMain := g.hasMain_plan r
    headers := by
      refine ⟨_, List.forall₂_map_right_iff.mpr (List.forall₂_same.mpr fun h hh => ?_),
        hpassage.headers⟩
      obtain ⟨n, hn, rfl⟩ := hforest.mem_plan_tasks.mp hh
      exact ⟨n, hn.1, (taskName_cases hforest hallow hn).imp id fun h => ⟨h.1, h.2.2.1⟩⟩
    distinct := hpassage.headers ▸ hnodup
    entry := hpassage.headers ▸ List.count_eq_one_of_mem hnodup hentry
    parts := hparts.trans (sections_eq hpreamble)
    written := fun n hn sec => hparts ▸ writes_loose_iff hforest r hn sec
    code := fun record hrecord => by
      obtain ⟨sec, hsec, hrecord⟩ := List.mem_flatMap.mp hrecord
      obtain ⟨key, heads, rfl, -, hstarts, -⟩ :=
        (sectionRecords_of_ready hforest options (hready sec hsec)).2 record hrecord
      exact ⟨_, heads, rfl, hstarts, rfl⟩
    joined := hjoined
    sections := fun record hrecord => by
      have hmem : record.text g options ∈ (programRecords g options).map (·.text g options) :=
        List.mem_map_of_mem hrecord
      rw [htexts] at hmem
      obtain ⟨sec, hsec, heq⟩ := List.mem_map.mp hmem
      obtain ⟨hfirst, hlast, -, hfeed⟩ := (hpassages sec hsec).1.rows_spec
      rw [← heq]
      exact ⟨hfeed, hfirst, hlast⟩
    apart := hapart
    starts := hstarts
    ends := by
      refine ⟨?_, hfeed⟩
      rw [rows_eq, List.getLast?_map, hend]
      rfl }

def blinkBeside : { g : Graph // g.Reachable ∧ code g { indent := "\t" }
    = .ok ("int x;\n\nx = 0;\n\ntask blink()\n\x7b\n\tOff(OUT_A);\n\x7d\n\n"
      ++ "// first\n// \n// last\ntask main()\n\x7b\n\x7d\n") } :=
  ⟨(Editor.run {} [.create "named_task" { fields := [("NAME", .text "blink")] },
      .create "motor_off" {}, .connectStatement 1 "STATEMENTS" 2, .create "variable_set" {},
      .create "main_task" { comment := some (.text "first\n\nlast") }]).graph,
    reachable_run .empty _, eq_ok_of_toOption (by decide +kernel)⟩

/-- A variable set outside of tasks comes before the tasks, with its declaration; the tasks come in order
of creation, the main task with its remark. -/
theorem shaped_of_code_blink :
    let g := (Editor.run {} [.create "named_task" { fields := [("NAME", .text "blink")] },
      .create "motor_off" {}, .connectStatement 1 "STATEMENTS" 2, .create "variable_set" {},
      .create "main_task" { comment := some (.text "first\n\nlast") }]).graph
    let text := "int x;\n\nx = 0;\n\ntask blink()\n\x7b\n\tOff(OUT_A);\n\x7d\n\n"
      ++ "// first\n// \n// last\ntask main()\n\x7b\n\x7d\n"
    g.Reachable ∧ code g { indent := "\t" } = .ok text
      ∧ (∃ p records, Shaped g { indent := "\t" } p records text)
      ∧ taskHeaders text = ["blink", "main"] := by
  intro g text
  obtain ⟨hreach, hcode⟩ : g.Reachable ∧ code g { indent := "\t" } = .ok text := blinkBeside.2
  obtain ⟨p, records, -, -, -, hshaped⟩ := shaped_of_code hreach { indent := "\t" } (by decide) rfl hcode
  exact ⟨hreach, hcode, ⟨p, records, hshaped⟩, by decide⟩

end Shape

end Generation

end NqcBlocks
