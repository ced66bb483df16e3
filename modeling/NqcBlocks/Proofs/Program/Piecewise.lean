import Mathlib
import NqcBlocks.Proofs.Graph.Partition
import NqcBlocks.Proofs.Program.SectionLines
import NqcBlocks.Proofs.Program.Silence

/-!
# A chain, at once and block by block

The chain of a body is composed as a whole and set in as a whole. The chain of a task is written one block at a
time, each piece set in by itself, and the notes on a block are told before the next one is looked at. Both come
to the same text: the code of a block that is enabled ends its line, so that the margin in front of the pieces is
the margin in front of the whole (`Text.prefixLines_append`).
-/

namespace NqcBlocks

open Nqc Text List String CodeReport

theorem Text.prefixLines_append {s : String} (hs : s.toList.getLast? = some '\n') (s' margin : String) :
    prefixLines (s ++ s') margin = prefixLines s margin ++ prefixLines s' margin := by
  obtain ⟨l, hl⟩ := List.getLast?_eq_some_iff.mp hs
  unfold prefixLines
  rw [toList_append, hl, List.append_assoc, singleton_append, splitLines_append_cons,
    flatMap_append, String.ofList_append]

/-! ## The last line of a block -/

namespace Nqc

def Stmt.IsComment : Stmt → Prop
  | .comment _ => True
  | _ => False

theorem Stmt.getLast?_text {margin : String} {s : Stmt} (hs : ¬ s.IsComment) :
    (s.text margin).toList.getLast? = some '\n' := by
  have hline : ∀ {s last : String}, last.toList.getLast? = some '\n' → (s ++ last).toList.getLast? = some '\n' := by
    intro s last h
    rw [toList_append, getLast?_append, h, Option.some_or]
  cases s with
  | comment => exact absurd trivial hs
  | branches arms otherwise => cases otherwise <;> exact hline rfl
  | _ => exact hline rfl

theorem getLast?_stmtsText {margin : String} {ss : List Stmt} {s : Stmt} (hlast : ss.getLast? = some s)
    (hs : ¬ s.IsComment) : (stmtsText margin ss).toList.getLast? = some '\n' := by
  obtain ⟨ss, rfl⟩ := List.getLast?_eq_some_iff.mp hlast
  rw [stmtsText_append, stmtsText, stmtsText, append_empty, toList_append, getLast?_append,
    s.getLast?_text hs, Option.some_or]

end Nqc

namespace Gen

variable {α β : Type} {P : α → Prop} {Q : β → Prop}

def Yields (x : Gen α) (P : α → Prop) : Prop := ∀ c a d, exec x c = (.ok a, d) → P a

theorem Yields.pure {a : α} (ha : P a) : Yields (pure a) P := by
  intro c a d h
  cases h
  exact ha

theorem Yields.bind {x : Gen α} {f : α → Gen β} (hf : ∀ a, Yields (f a) Q) : Yields (x >>= f) Q := by
  intro c b d h
  obtain ⟨e, he, -⟩ | ⟨a, c', -, hrest⟩ := exec_bind_cases h
  · cases he
  · exact hf a c' b d hrest

end Gen

open Gen Generation

theorem yields_statementCode (n : Node) (needsBound : Gen Bool) (value : String → Order → Gen Expr)
    (body : String → Gen (List Stmt)) :
    Yields (statementCode n needsBound value body) fun ss => ∃ s, ss.getLast? = some s ∧ ¬ s.IsComment := by
  unfold statementCode
  split <;> repeat refine .bind fun _ => ?_
  -- a count that is computed first, and a last arm that may be missing
  case h_13 | h_17 =>
    split <;> repeat refine .bind fun _ => ?_
    all_goals exact .pure ⟨_, rfl, id⟩
  all_goals exact .pure ⟨_, rfl, id⟩

theorem BlockTree.yields_code (catalog : Catalog) (t : BlockTree) (margin : String) : Yields (t.code catalog)
    fun ss => if t.node.enabled then (stmtsText margin ss).toList.getLast? = some '\n' else ss = [] := by
  cases t with
  | mk n attached operands bodies =>
    rw [BlockTree.code, BlockTree.node]
    split
    · refine .bind fun comments => ?_
      intro c ss d h
      obtain ⟨e, he, -⟩ | ⟨statements, c', hexec, hrest⟩ := exec_bind_cases h
      · cases he
      · cases hrest
        obtain ⟨s, hlast, hs⟩ := yields_statementCode _ _ _ _ _ _ _ hexec
        rw [stmtsText_withComments, toList_append, getLast?_append, getLast?_stmtsText hlast hs, Option.some_or]
    · exact .pure rfl

theorem BlockTree.yields_prefixLines (catalog : Catalog) (t : BlockTree) (indent margin : String) :
    Yields (t.code catalog) fun ss => ∀ text, prefixLines (stmtsText indent ss ++ text) margin
      = prefixLines (stmtsText indent ss) margin ++ prefixLines text margin := by
  intro c ss d h text
  have hyields := t.yields_code catalog indent c ss d h
  split at hyields
  · exact prefixLines_append hyields text margin
  · rw [hyields, stmtsText, empty_append]
    exact empty_append.symm

/-! ## What a block does not touch -/

def Comparison.keeping (L : Comparison) (options : Options) : Comparison :=
  { L with
    Pairs := fun c c' => L.Pairs c c' ∧ c.options = options
    view := fun h => L.view h.1
    scope := fun h scope => ⟨L.scope h.1 scope, h.2⟩
    note := fun h note => ⟨L.note h.1 note, h.2⟩
    allocate := fun h => L.allocate h.1
    resolve := fun h use name => (L.resolve h.1 use name).imp_right (Or.imp_right
      fun ⟨new, names, names', hnew, hnew', hpairs⟩ => ⟨new, names, names', hnew, hnew', hpairs, h.2⟩) }

theorem options_exec_code (catalog : Catalog) (t : BlockTree) (c : Context) :
    (exec (t.code catalog) c).2.options = c.options := by
  have h : ((besides id).keeping c.options).Rel Eq (t.code catalog) ((t.revise (.ofNode id)).code catalog) :=
    Comparison.rel_code t
  obtain ⟨_, _, _, hstops⟩ | ⟨-, -, hoptions⟩ := h c _ ⟨rfl, rfl⟩
  · exact hstops.elim
  · exact hoptions

/-- The notes made so far and the reports do not influence a chain. -/
theorem exec_chainCode_besides (catalog : Catalog) (chain : List BlockTree) (c d : Context)
    (h : c = { d with notes := c.notes, reports := c.reports }) (hnotes : d.notes = []) :
    exec (chainCode catalog chain) c = ((exec (chainCode catalog chain) d).1,
      { (exec (chainCode catalog chain) d).2 with
        notes := c.notes ++ (exec (chainCode catalog chain) d).2.notes, reports := c.reports }) := by
  have hrel : (besides (fun _ => c.reports) c.notes).Rel Eq (chainCode catalog chain)
      (chainCode catalog (reviseChain (.ofNode id) chain)) := Comparison.rel_chainCode chain
  rw [reviseChain_id] at hrel
  have hexec := exec_of_besides hrel d
  rwa [hnotes, append_nil, ← h] at hexec

/-! ## Chains -/

/-- **Writing a chain piece by piece comes to the same as writing it at once**: the pieces make up its text with
the margin in front of each line, what would have been noted has been told, in order, with one report on each
block besides, and all else is as it would be. It also fails for the same reason. -/
structure Piecewise (catalog : Catalog) (margin : String) (chain : List BlockTree) (c : Context) : Prop where
  fails : ∀ {e d}, exec (chainCode catalog chain) c = (.error e, d) →
    ∃ d', exec (chain.forM (emitBlock catalog margin)) c = (.error e, d')
  writes : ∀ {ss d}, exec (chainCode catalog chain) c = (.ok ss, d) → ∃ reports,
    exec (chain.forM (emitBlock catalog margin)) c = (.ok (), { d with notes := [], reports := c.reports ++ reports })
    ∧ CodeReport.code reports = prefixLines (stmtsText c.options.indent ss) margin
    ∧ reports.filter (·.warning.isSome) = d.notes.map (fun n => .warn n.node n.text)
    ∧ (reports.filter (·.warning.isNone)).map (·.node) = chain.map fun t => some t.node.handle

theorem exec_emitBlock {catalog : Catalog} {t : BlockTree} {c d : Context} {ss : List Stmt}
    (h : exec (t.code catalog) c = (.ok ss, d)) (margin : String) : ∃ report : CodeReport,
      exec (emitBlock catalog margin t) c = (.ok (), ({ d with reports := d.reports ++ [report] } : Context).told)
      ∧ report.newCode.getD "" = prefixLines (stmtsText c.options.indent ss) margin
      ∧ report.warning = none ∧ report.node = some t.node.handle := by
  have hyields := t.yields_code catalog c.options.indent c ss d h
  rw [← options_exec_code catalog t c, h] at hyields ⊢
  unfold emitBlock
  rw [exec_bind_ok h, exec_get_bind]
  split at hyields
  · next hen =>
    rw [if_pos hen]
    refine ⟨_, (exec_bind_ok rfl).trans (exec_tellNotes _), ?_⟩
    dsimp only
    exact ⟨getD_someText _, rfl, rfl⟩
  · next hen =>
    rw [if_neg hen, hyields]
    refine ⟨_, (exec_bind_ok rfl).trans (exec_tellNotes _), ?_⟩
    exact ⟨rfl, rfl, rfl⟩

/-- After the first block there are no notes left, whatever there was before it. -/
theorem Piecewise.cons {catalog : Catalog} {margin : String} {rest : List BlockTree}
    (hrest : ∀ c, c.notes = [] → Piecewise catalog margin rest c) (t : BlockTree) (c : Context) :
    Piecewise catalog margin (t :: rest) c := by
  rcases hcode : exec (t.code catalog) c with ⟨_ | first, d⟩
  · have hpieces : exec ((t :: rest).forM (emitBlock catalog margin)) c = _ := exec_bind_error (exec_bind_error hcode)
    constructor <;> intro _ _ h <;> rw [chainCode, exec_bind_error hcode] at h <;> cases h
    exact ⟨d, hpieces⟩
  obtain ⟨report, hblock, hcode', hwarning, hnode⟩ := exec_emitBlock hcode margin
  have hreports : d.reports = c.reports := by rw [← (t.silent_code catalog).reports_eq c, hcode]
  have hoptions : d.options = c.options := by rw [← options_exec_code catalog t c, hcode]
  have hpieces : exec ((t :: rest).forM (emitBlock catalog margin)) c = _ := exec_bind_ok hblock
  have hframe := exec_chainCode_besides catalog rest d
    ({ d with reports := d.reports ++ [report] } : Context).told rfl rfl
  have ih := hrest ({ d with reports := d.reports ++ [report] } : Context).told rfl
  constructor <;> intro _ _ h <;> rw [chainCode, exec_bind_ok hcode] at h
  · obtain ⟨e, he, hexec⟩ | ⟨_, _, -, h⟩ := exec_bind_cases h
    · rw [hframe] at hexec
      obtain ⟨hfirst, -⟩ := Prod.mk.inj hexec
      cases he
      rw [hpieces]
      exact ih.fails (Prod.ext hfirst rfl)
    · cases h
  · obtain ⟨e, he, -⟩ | ⟨others, d', hexec, h⟩ := exec_bind_cases h
    · cases he
    rw [hframe] at hexec
    obtain ⟨hfirst, rfl⟩ := Prod.mk.inj hexec
    cases h
    obtain ⟨reports, hrun, hcodes, hwarnings, hblocks⟩ := ih.writes (Prod.ext hfirst rfl)
    refine ⟨report :: (d.notes.map (fun n => .warn n.node n.text) ++ reports), ?_, ?_, ?_, ?_⟩
    · rw [hpieces]
      refine hrun.trans ?_
      simp [Context.told, hreports]
    · rw [code_cons, code_append, code_warnings, empty_append, hcode', hcodes,
        stmtsText_append, t.yields_prefixLines catalog _ _ _ _ _ hcode, ← hoptions]
      rfl
    · rw [filter_cons_of_neg (by simp [hwarning]), filter_append, hwarnings, map_append,
        List.filter_eq_self.mpr (by simp [warn])]
    · rw [filter_cons_of_pos (by simp [hwarning]), filter_append, map_cons, hnode,
        filter_eq_nil_iff.mpr (by simp [warn]), nil_append, hblocks, map_cons]

theorem piecewise_of_quiet (catalog : Catalog) (margin : String) : ∀ (chain : List BlockTree) {c : Context},
    c.notes = [] → Piecewise catalog margin chain c
  | [], c, hc => by
    constructor <;> intro _ _ h <;> rw [chainCode] at h <;> cases h
    refine ⟨[], ?_, rfl, by rw [hc]; rfl, rfl⟩
    rw [append_nil, ← hc]
    rfl
  | t :: rest, c, _ => .cons (fun _ => piecewise_of_quiet catalog margin rest) t c

namespace Graph

theorem Forest.map_node_trees {g : Graph} (hg : g.Forest) {h : Handle} {n : Node} (hn : g.get? h = some n) :
    (g.trees (some h)).map (·.node) = g.chainAt (some h) := by
  refine hg.induction_inwards (P := fun n => ∀ {h}, g.get? h = some n →
    (g.trees (some h)).map (·.node) = g.chainAt (some h)) ?_ hn hn
  intro _ n _ ih h hn
  rw [hg.trees_eq hn, hg.grounded.chainAt_eq hn, map_cons, hg.tree_eq hn, BlockTree.node]
  refine congrArg (n :: ·) ?_
  cases hnext : n.next with
  | none => exact (Forest.chainWithin_none ..).symm
  | some c =>
    have hat := n.at?_nextPosition.trans hnext
    obtain ⟨m, hm, -⟩ := hg.exists_child hn hat
    exact ih hat hm hm

end Graph

/-- **Block by block and at once, a chain is written alike**, in every context and with every margin. For the code of
a block that is enabled ends its line, so that the margin goes in front of it and of what follows by itself. -/
theorem chain_written_piecewise {g : Graph} (hg : g.Reachable) {h : Handle} {n : Node} (hn : g.get? h = some n)
    (margin : String) (c : Context) :
    (g.headTrees h).map (·.node) = g.chainAt (some h) ∧ Piecewise g.catalog margin (g.headTrees h) c
    ∧ ∀ t : BlockTree, t.node.enabled → ∀ ss d, exec (t.code g.catalog) c = (.ok ss, d) →
        (stmtsText c.options.indent ss).toList.getLast? = some '\n'
        ∧ ∀ text, prefixLines (stmtsText c.options.indent ss ++ text) margin
          = prefixLines (stmtsText c.options.indent ss) margin ++ prefixLines text margin := by
  have hf := hg.forest
  rw [hf.headTrees_eq hn]
  refine ⟨hf.map_node_trees hn, ?_, fun t hen ss d h => ⟨?_, t.yields_prefixLines _ _ _ _ _ _ h⟩⟩
  · rw [hf.trees_eq hn]
    exact .cons (fun _ => piecewise_of_quiet _ _ _) _ _
  · have hyields := t.yields_code _ c.options.indent _ _ _ h
    dsimp only at hyields
    rwa [if_pos hen] at hyields

open Graph in
theorem chain_written_piecewise_countedLoop :
    ∃ d, exec ((countedLoop.headTrees 3).forM (emitBlock countedLoop.catalog "\t")) .start = (.ok (), d)
      ∧ CodeReport.code d.reports = "\trepeat(0) \x7b\n\t  Off(OUT_A);\n\t\x7d\n\tPlaySound(SOUND_CLICK);\n" := by
  obtain ⟨n, hn⟩ : ∃ n, countedLoop.get? 3 = some n := Option.isSome_iff_exists.mp (by decide +kernel)
  obtain ⟨-, hpieces, -⟩ := chain_written_piecewise reachable_countedLoop hn "\t" .start
  have htext : (exec (chainCode countedLoop.catalog (countedLoop.headTrees 3)) .start).1.toOption.map
      (stmtsText "  ") = some "repeat(0) \x7b\n  Off(OUT_A);\n\x7d\nPlaySound(SOUND_CLICK);\n" := by decide +kernel
  rcases hexec : exec (chainCode countedLoop.catalog (countedLoop.headTrees 3)) .start with ⟨_ | ss, d⟩
  · rw [hexec] at htext
    cases htext
  · rw [hexec] at htext
    obtain ⟨reports, hrun, hcode, -⟩ := hpieces.writes hexec
    refine ⟨_, hrun, hcode.trans ?_⟩
    rw [show stmtsText Context.start.options.indent ss = _ from Option.some.inj htext]
    decide +kernel

end NqcBlocks
