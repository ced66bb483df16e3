import Mathlib
import NqcBlocks.Proofs.Program.ProgramLines

/-!
# Remarks and code

Remarks never change code, and none is lost (`remarks_apart_from_code`). The text of a program is the text
of its lines, each below the remarks of the block that it starts, if it does. Every row of a remark is a
comment, whatever the remark holds, and no row of code is one. So a program without its comments is the
program of the graph without remarks, and its comments are the remarks of the blocks that lines belong to,
in the order of these lines.
-/

namespace NqcBlocks

open Nqc Text List String

/-! ## Rows of remarks and rows of code -/

section Rows

variable {margin : String}

theorem isComment_setIn (hm : ∀ c ∈ margin.toList, IsMargin c) {code : String} (h : IsPlain code)
    (depth : Nat) : isComment (.ofList (setIn margin.toList depth code.toList)) = false := by
  rw [setIn_eq hm h.unbroken, toList_append, isComment_margin (isMargin_indentation hm depth), ofList_toList]
  exact h.isComment

namespace Line

def rowsAbove (margin : String) (l : Line) : List (List Char) :=
  l.remarks.map fun row => setIn margin.toList l.depth row.toList

def codeRow (margin : String) (l : Line) : List Char := setIn margin.toList l.depth l.code.toList

theorem rows_eq (margin : String) (l : Line) : l.rows margin = l.rowsAbove margin ++ [l.codeRow margin] :=
  map_append

theorem isComment_of_mem_rowsAbove (hm : ∀ c ∈ margin.toList, IsMargin c) {l : Line} {row : List Char}
    (h : row ∈ l.rowsAbove margin) : isComment (.ofList row) = true := by
  obtain ⟨text, htext, rfl⟩ := mem_map.mp h
  exact isComment_of_isRemark (isRemark_setIn hm (isRemark_of_mem_remarks htext) l.depth)

end Line

theorem filter_rowsOf_code (hm : ∀ c ∈ margin.toList, IsMargin c) : ∀ {ls : List Line}, (∀ l ∈ ls, IsPlain l.code) →
      (rowsOf margin ls).filter (fun row => !isComment (.ofList row)) = ls.map (Line.codeRow margin)
  | [], _ => rfl
  | l :: ls, h => by
    obtain ⟨hl, hls⟩ := forall_mem_cons.mp h
    have hremarks : (l.rowsAbove margin).filter (fun row => !isComment (.ofList row)) = [] := by
      refine filter_eq_nil_iff.mpr fun row hrow => ?_
      rw [Line.isComment_of_mem_rowsAbove hm hrow]
      decide
    have hcode : [l.codeRow margin].filter (fun row => !isComment (.ofList row)) = [l.codeRow margin] := by
      refine filter_cons_of_pos ?_
      rw [Line.codeRow, isComment_setIn hm hl]
      rfl
    rw [rowsOf_cons, l.rows_eq, filter_append, filter_append, hremarks, hcode, filter_rowsOf_code hm hls]
    rfl

theorem filter_rowsOf_remarks (hm : ∀ c ∈ margin.toList, IsMargin c) :
    ∀ {ls : List Line}, (∀ l ∈ ls, IsPlain l.code) →
      (rowsOf margin ls).filter (fun row => isComment (.ofList row)) = ls.flatMap (Line.rowsAbove margin)
  | [], _ => rfl
  | l :: ls, h => by
    obtain ⟨hl, hls⟩ := forall_mem_cons.mp h
    have hremarks : (l.rowsAbove margin).filter (fun row => isComment (.ofList row)) = l.rowsAbove margin :=
      List.filter_eq_self.mpr fun row hrow => Line.isComment_of_mem_rowsAbove hm hrow
    have hcode : [l.codeRow margin].filter (fun row => isComment (.ofList row)) = [] := by
      refine filter_cons_of_neg ?_
      rw [Line.codeRow, isComment_setIn hm hl]
      decide
    rw [rowsOf_cons, l.rows_eq, filter_append, filter_append, hremarks, hcode,
      filter_rowsOf_remarks hm hls, append_nil, flatMap_cons]

end Rows

/-! ## Programs without comments -/

theorem BlockTree.remarkLines_mute (t : BlockTree) : (t.revise muting).remarkLines = [] := by
  have htext := (t.revise muting).toList_remarks
  rw [t.remarks_mute] at htext
  cases hlines : (t.revise muting).remarkLines with
  | nil => rfl
  | cons row rows =>
    rw [hlines, map_cons, unrows_cons] at htext
    exact absurd htext.symm (append_ne_nil_of_right_ne_nil _ (cons_ne_nil _ _))

theorem Line.remarks_mute (l : Line) : l.mute.remarks = [] := by
  show ((l.owner.map (·.revise muting)).map BlockTree.remarkLines).getD [] = []
  cases l.owner with
  | none => rfl
  | some t => exact t.remarkLines_mute

theorem rowsOf_mute (margin : String) (ls : List Line) :
    rowsOf margin (ls.map Line.mute) = ls.map (Line.codeRow margin) := by
  unfold rowsOf
  rw [flatMap_map, map_eq_flatMap]
  refine flatMap_congr fun l _ => ?_
  rw [Line.rows_eq, Line.rowsAbove, l.remarks_mute]
  rfl

theorem Written.eq_withoutComments {margin s s' : String} {ls : List Line}
    (hm : ∀ c ∈ margin.toList, IsMargin c) (h : Written IsPlain margin s ls)
    (h' : Written IsPlain margin s' (ls.map Line.mute)) : s' = withoutComments s := by
  rw [← toList_inj, toList_withoutComments h.text (h.notMem hm), filter_rowsOf_code hm h.codes, h'.text, rowsOf_mute]

/-! ## The comments of a program -/

def Line.written (margin : String) (l : Line) : List String :=
  (l.remarks ++ [l.code]).map (indentation margin l.depth ++ ·)

def Node.OnlyLineFeeds (n : Node) : Prop :=
  ∀ s, n.comment = some (.text s) → ∀ c ∈ s.toList, isLineBreak c = true → c = '\n'

theorem unbroken_of_mem_remarkRows {s row : String}
    (h : ∀ c ∈ s.toList, isLineBreak c = true → c = '\n') (hrow : row ∈ remarkRows s) : Unbroken row := by
  obtain ⟨line, rfl, hline⟩ := exists_of_mem_remarkRows hrow
  refine Unbroken.append (by decide) fun c hc => Bool.eq_false_iff.mpr fun hbreak => ?_
  obtain ⟨hmem, hne⟩ := hline c hc
  exact hne (h c hmem hbreak)

theorem flatMap_remarks : ∀ ls : List Line, ls.flatMap Line.remarks = (ownersOf ls).flatMap BlockTree.remarkLines
  | [] => rfl
  | ⟨none, _, _⟩ :: ls => flatMap_remarks ls
  | ⟨some t, _, _⟩ :: ls => congrArg (t.remarkLines ++ ·) (flatMap_remarks ls)

section Comments

variable {margin s : String} {ls : List Line}

theorem Line.rows_of_unbroken (hm : ∀ c ∈ margin.toList, IsMargin c) {l : Line} (hcode : IsPlain l.code)
    (h : ∀ row ∈ l.remarks, Unbroken row) : l.rows margin = (l.written margin).map toList := by
  unfold Line.rows Line.written
  rw [List.map_map]
  refine map_congr_left fun row hrow => setIn_eq hm ?_ l.depth
  rcases mem_append.mp hrow with hrow | hrow
  · exact h row hrow
  · rw [mem_singleton.mp hrow]
    exact hcode.unbroken

theorem Written.splitOnChar_eq (hm : ∀ c ∈ margin.toList, IsMargin c) (h : Written IsPlain margin s ls)
    (hunbroken : ∀ l ∈ ls, ∀ row ∈ l.remarks, Unbroken row) :
    splitOnChar s '\n' = ls.flatMap (Line.written margin) ++ [""] := by
  rw [splitOnChar_unrows h.text (h.notMem hm), rowsOf, map_flatMap]
  refine congrArg (· ++ _) (flatMap_congr fun l hl => ?_)
  rw [Line.rows_of_unbroken hm (h.codes l hl) (hunbroken l hl), List.map_map]
  exact (map_congr_left fun row _ => ofList_toList).trans (List.map_id _)

theorem Written.commentsOf_eq (hm : ∀ c ∈ margin.toList, IsMargin c) (h : Written IsPlain margin s ls)
    (hunbroken : ∀ l ∈ ls, ∀ row ∈ l.remarks, Unbroken row) : commentsOf s = ls.flatMap Line.remarks := by
  rw [commentsOf_unrows h.text (h.notMem hm), filter_rowsOf_remarks hm h.codes, map_flatMap]
  refine flatMap_congr fun l hl => ?_
  unfold Line.rowsAbove
  rw [List.map_map]
  refine (map_congr_left fun row hrow => ?_).trans (List.map_id _)
  -- what is in front of a remark is its margin, and a remark starts with a slash
  obtain ⟨-, -, -, -, comment, -, hmem⟩ := Line.exists_of_mem_remarks hrow
  obtain ⟨line, rfl, -⟩ := exists_of_mem_remarkRows hmem
  have hstart : ("// " ++ line).toList.dropWhile isBlank = ("// " ++ line).toList := by
    rw [toList_append]
    rfl
  show ofList ((setIn margin.toList l.depth ("// " ++ line).toList).dropWhile isBlank) = _
  rw [setIn_eq hm (hunbroken l hl _ hrow), toList_append, dropWhile_margin (isMargin_indentation hm _),
    hstart, ofList_toList]
  rfl

end Comments

namespace Generation

variable {g : Graph} {options : Options} {text : String}

theorem unbroken_of_onlyLineFeeds (hg : g.Forest)
    (hfeeds : ∀ n ∈ g.nodes, n.OnlyLineFeeds) :
    ∀ l ∈ programLines g options, ∀ row ∈ l.remarks, Unbroken row := by
  intro l hl row hrow
  obtain ⟨t, howner, n, hn, s, hs, hmem⟩ := Line.exists_of_mem_remarks hrow
  have ht : t ∈ ownersOf (programLines g options) := mem_filterMap.mpr ⟨l, hl, howner⟩
  have hlive := get?_of_mem_voices hg ht hn
  exact unbroken_of_mem_remarkRows (hfeeds n (hg.mem_nodes_iff_get?.mpr hlive) s hs) hmem

/-- **Remarks never change code, and none is lost.** Let a program without a preamble, set in by blanks and
tabs, be generated for a graph. Without its comments, it is the program of the graph without remarks. If
the remarks in the graph have no other breaks than line feeds, then the program is, line by line, what its
lines are written as, each below the remarks of the block that it starts; and its comments are those of
the blocks that lines belong to, in this order. These blocks are the tasks of the program and all rendered
statements and values on their own, so that disabled statements are left out; with each of them the
remarks of all values plugged into it are written, and no block is written twice. -/
theorem remarks_apart_from_code (hg : g.Reachable) (hindent : ∀ c ∈ options.indent.toList, IsMargin c)
    (hpreamble : options.preamble = "") (hcode : code g options = .ok text) :
    code g.mute options = .ok (withoutComments text)
    ∧ ((∀ n ∈ g.nodes, n.OnlyLineFeeds) →
      splitOnChar text '\n' = (programLines g options).flatMap (Line.written options.indent) ++ [""]
      ∧ commentsOf text = (programOwners g options).flatMap (fun n => (g.tree n).remarkLines)
      ∧ (programOwners g options).map g.tree = ownersOf (programLines g options)
      ∧ (∀ n, n ∈ programOwners g options
          ↔ g.Planned n ∨ g.Rendered n ∧ (n.isStatement = true ∨ n.parent = none))
      ∧ (((programOwners g options).flatMap fun n => (g.tree n).voices).map (·.handle)).Nodup) := by
  have hforest := hg.forest
  have hwritten := written_program hforest hindent hpreamble hcode
  have htrees : (programOwners g options).map g.tree = ownersOf (programLines g options) :=
    map_tree_programOwners hforest
  refine ⟨?_, fun hfeeds => ⟨?_, ?_, htrees, fun n => mem_programOwners hforest, ?_⟩⟩
  · obtain ⟨text', hcode'⟩ := exists_code_mute hforest hcode
    have hwritten' := written_program hforest.mute hindent hpreamble hcode'
    rw [programLines_mute hforest] at hwritten'
    rw [hcode', hwritten.eq_withoutComments hindent hwritten']
  · exact hwritten.splitOnChar_eq hindent (unbroken_of_onlyLineFeeds hforest hfeeds)
  · rw [hwritten.commentsOf_eq hindent (unbroken_of_onlyLineFeeds hforest hfeeds), flatMap_remarks,
      ← htrees, List.flatMap_map]
  · have hvoices : (programOwners g options).flatMap (fun n => (g.tree n).voices)
        = (ownersOf (programLines g options)).flatMap BlockTree.voices := by
      rw [← htrees, List.flatMap_map]
    rw [hvoices]
    exact nodup_programVoices hforest

def remarkedLoop : List Command :=
  [.create "main_task" { comment := some (.text "one\n two ") },
    .create "repeat_until" { comment := some (.text "three") }, .connectStatement 1 "STATEMENTS" 2,
    .create "boolean" { comment := some (.text "four"), enabled := false }, .connectValue 2 "CONDITION" 3,
    .create "motor_off" { comment := some (.text "five"), enabled := false }, .connectStatement 2 "DO" 4]

def remarkedText : String :=
  "// one\n// two\ntask main()\n\x7b\n  // three\n  // four\n  do \x7b\n  \x7d while (!(false));\n\x7d\n"

theorem code_remarkedLoop : code (Editor.run {} remarkedLoop).graph {} = .ok remarkedText :=
  eq_ok_of_toOption (by decide +kernel)

theorem commentsOf_remarkedText : commentsOf remarkedText = ["// one", "// two", "// three", "// four"] := by
  decide +kernel

theorem onlyLineFeeds_remarkedLoop : ∀ n ∈ (Editor.run {} remarkedLoop).graph.nodes, n.OnlyLineFeeds := by
  have hcomments : (Editor.run {} remarkedLoop).graph.nodes.map (·.comment)
      = ["one\n two ", "three", "four", "five"].map fun s => some (.text s) := by cbv
  have hbreaks : ∀ s ∈ ["one\n two ", "three", "four", "five"],
      ∀ c ∈ s.toList, isLineBreak c = true → c = '\n' := by decide
  intro n hn s hs
  obtain ⟨s', hmem, hs'⟩ : ∃ s' ∈ ["one\n two ", "three", "four", "five"], some (.text s') = n.comment :=
    mem_map.mp (hcomments ▸ mem_map_of_mem hn)
  rw [hs] at hs'
  cases hs'
  exact hbreaks s hmem

/-- The remark of the disabled condition is written, and that of the disabled statement is not. -/
theorem remarks_apart_from_code_loop :
    let g := (Editor.run {} remarkedLoop).graph
    g.Reachable ∧ code g {} = .ok remarkedText ∧ (∀ n ∈ g.nodes, n.OnlyLineFeeds)
      ∧ code g.mute {} = .ok (withoutComments remarkedText)
      ∧ (programOwners g {}).flatMap (fun n => (g.tree n).remarkLines)
        = ["// one", "// two", "// three", "// four"] := by
  intro g
  have hreach : g.Reachable := Graph.reachable_run .empty _
  have hblanks : ∀ c ∈ "  ".toList, c = ' ' := by decide
  obtain ⟨hmute, hlines⟩ := remarks_apart_from_code hreach (fun c hc => .inl (hblanks c hc)) rfl
    code_remarkedLoop
  obtain ⟨-, hcomments, -⟩ := hlines onlyLineFeeds_remarkedLoop
  exact ⟨hreach, code_remarkedLoop, onlyLineFeeds_remarkedLoop, hmute,
    hcomments.symm.trans commentsOf_remarkedText⟩

end Generation

end NqcBlocks
