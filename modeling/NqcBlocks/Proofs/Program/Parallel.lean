import NqcBlocks.Proofs.Graph.Pruning
import NqcBlocks.Proofs.Program.Comparison
import NqcBlocks.Proofs.Program.Warnings

/-!
# Two runs that write the same

A program is generated twice, from blocks of which the same is left without the disabled ones. The two runs need
not make the same reports, since disabled blocks are reported as well, and the names in use may come in another
order; but what is written and what is warned about has to be the same at any time. So contexts are **parallel**
if they have the same scope, the same text so far and the same warnings so far, and both resolvers are later
states of one resolver (`Resolver.Sound`).
-/

namespace NqcBlocks

open Gen List Node

def Context.warnings (c : Context) : List Warning :=
  CodeReport.warnings c.reports ++ c.notes.map fun n => (some n.node, n.text)

/-- **Two contexts are parallel** if the same has been written and warned about, with names that one resolver
accounts for. -/
structure Context.Parallel (r : Resolver) (c c' : Context) : Prop where
  options : c'.options = c.options
  names : r.Sound c.names
  names' : r.Sound c'.names
  scope : c'.scope = c.scope
  code : CodeReport.code c'.reports = CodeReport.code c.reports
  warnings : c'.warnings = c.warnings

theorem CodeReport.warnings_append (reports reports' : List CodeReport) :
    warnings (reports ++ reports') = warnings reports ++ warnings reports' :=
  filterMap_append

namespace Context

theorem warnings_note (c : Context) (note : CodeNote) : ({ c with notes := c.notes ++ [note] } : Context).warnings
      = c.warnings ++ [(some note.node, note.text)] := by
  unfold warnings
  rw [map_append, ← append_assoc]
  rfl

theorem warnings_report {report : CodeReport} (hquiet : report.warning = none) (c : Context) :
    ({ c with reports := c.reports ++ [report] } : Context).warnings = c.warnings := by
  unfold warnings
  rw [CodeReport.warnings_append, show CodeReport.warnings [report] = [] by
    simp [CodeReport.warnings, hquiet], append_nil]

theorem code_told (c : Context) : CodeReport.code c.told.reports = CodeReport.code c.reports := by
  unfold told
  rw [CodeReport.code_append, Generation.code_warnings CodeNote.node CodeNote.text]
  exact String.append_empty

theorem warnings_told (c : Context) : c.told.warnings = c.warnings := by
  unfold warnings told
  rw [CodeReport.warnings_append, map_nil, append_nil]
  refine congrArg _ ?_
  unfold CodeReport.warnings
  rw [filterMap_map]
  exact congrFun (filterMap_eq_map (f := fun n : CodeNote => (some n.node, n.text))) c.notes

end Context

/-! ## What is left of the blocks -/

theorem Node.commentLines_of_remarked {n : Node} (h : n.remarked = false) : n.commentLines = pure "" := by
  have hnone : n.comment.bind Json.truthy? = none := Option.isNone_iff_eq_none.mp (by simp_all [remarked])
  unfold commentLines
  rw [hnone]

mutual
theorem BlockTree.comments_of_remarked : ∀ t : BlockTree, t.remarked = false → t.comments = pure ""
  | .mk n attached operands bodies, h => by
    rw [BlockTree.remarked, Bool.or_eq_false_iff] at h
    rw [BlockTree.comments, commentLines_of_remarked h.1, operandComments_of_remarked operands h.2]
    rfl
theorem operandComments_of_remarked : ∀ operands : Operands,
    operandsRemarked operands = false → operandComments operands = pure ""
  | [], _ => by rw [operandComments]
  | (_, none) :: rest, h => by
    rw [operandsRemarked] at h
    rw [operandComments, operandComments_of_remarked rest h]
  | (_, some t) :: rest, h => by
    rw [operandsRemarked, Bool.or_eq_false_iff] at h
    rw [operandComments, t.comments_of_remarked h.1, operandComments_of_remarked rest h.2]
    rfl
end

theorem GenError.revise_content_content (e : GenError) : (e.revise content).revise content = e.revise content := by
  cases e with
  | scope cause =>
    cases cause with
    | loopOutside loop => exact congrArg (fun n => GenError.scope (.loopOutside n)) loop.content_content
    | _ => rfl
  | _ => rfl

/-- **The comparison with the run on what is left of the blocks.** The reason for a failure may be about a block
with its links. -/
def parallel (r : Resolver) : Comparison where
  revision := pruning
  spell := fun _ name => name
  Pairs := Context.Parallel r
  Fails := fun e e' => e'.revise Node.content = e.revise Node.content
  Stops := fun _ => False
  content := fun n => by rw [n.respell_id]; exact n.content_content
  spell_ne := @Comparison.unspelled_ne
  value := fun h => (BlockTree.counts_eq_false_iff.mp h).imp_right (BlockTree.comments_of_remarked _)
  statement := id
  fails := GenError.revise_content_content
  view := fun hc => ⟨by rw [hc.options], by rw [hc.options], hc.scope⟩
  scope := fun hc _ => { hc with scope := rfl }
  note := fun {c c'} hc note => { hc with warnings := by rw [c.warnings_note, c'.warnings_note, hc.warnings] }
  allocate := fun hc s h => (Scope.allocate_congr hc.names' s h).trans (Scope.allocate_congr hc.names s h).symm
  resolve := by
    intro c c' hc use name
    have hres := hc.names.resolve use name
    have hres' := hc.names'.resolve use name
    rw [respellText_id]
    by_cases hbad : use.forbids name = true ∧ r.policy = .reject
    · rw [if_pos hbad] at hres hres'
      exact .inr (.inl ⟨_, hres, hres'⟩)
    · rw [if_neg hbad] at hres hres'
      obtain ⟨names, hnames, hres⟩ := hres
      obtain ⟨names', hnames', hres'⟩ := hres'
      exact .inr (.inr ⟨_, names, names', hres, hres', { hc with names := hnames, names' := hnames' }⟩)

variable {r : Resolver}

theorem reporting_parallel : (parallel r).Reporting where
  emit := by
    intro c c' hc report hquiet
    refine { hc with code := ?_, warnings := ?_ }
    · rw [CodeReport.code_append, CodeReport.code_append, hc.code]
    · rw [c.warnings_report hquiet, c'.warnings_report hquiet, hc.warnings]
  tell := by
    intro c c' hc
    exact { hc with
      code := c'.code_told.trans (hc.code.trans c.code_told.symm)
      warnings := c'.warnings_told.trans (hc.warnings.trans c.warnings_told.symm) }
  pass := by
    intro t _ c c' hc report hquiet hcode
    have hwritten : CodeReport.code (c.reports ++ [report]) = CodeReport.code c.reports := by
      rw [CodeReport.code_append, CodeReport.code_singleton, hcode]
      exact String.append_empty
    exact { hc with
      code := hc.code.trans ((Context.code_told _).trans hwritten).symm
      warnings := hc.warnings.trans ((Context.warnings_told _).trans (c.warnings_report hquiet)).symm }

theorem agrees_of_rel {α β : Type} {ρ : α → β → Prop} {x : Gen α} {y : Gen β} (h : (parallel r).Rel ρ x y)
    {c c' : Context} (hc : c.Parallel r c') :
    (parallel r).Agrees ρ (exec x c).1 (exec y c').1 ∧ (exec x c).2.Parallel r (exec y c').2 :=
  (h c c' hc).resolve_left fun ⟨_, _, _, hstops⟩ => hstops

theorem rel_of_rel {α : Type} {x x' y : Gen α} (hx : (parallel r).Rel Eq x y) (hx' : (parallel r).Rel Eq x' y) :
    (parallel r).Rel Eq x x' := by
  intro c c' hc
  have h := agrees_of_rel hx hc
  have h' := agrees_of_rel hx' (c := c') ⟨rfl, hc.names', hc.names', rfl, rfl, rfl⟩
  revert h h'
  generalize exec x c = p
  generalize exec x' c' = p'
  generalize exec y c' = q
  rintro ⟨hagrees, hd⟩ ⟨hagrees', hd'⟩
  obtain ⟨o, d⟩ := p
  obtain ⟨o', d'⟩ := p'
  obtain ⟨o'', d''⟩ := q
  refine .inr ⟨?_, ⟨hd'.options.symm.trans hd.options, hd.names, hd'.names, hd'.scope.symm.trans hd.scope,
    hd'.code.symm.trans hd.code, hd'.warnings.symm.trans hd.warnings⟩⟩
  cases hagrees with
  | ok hab =>
    cases hagrees' with
    | ok hab' => exact .ok (hab.trans hab'.symm)
  | error he =>
    cases hagrees' with
    | error he' => exact .error (he'.symm.trans he)

theorem sameChains_of_pruned {g g' : Graph} (hcat : g'.catalog = g.catalog) {heads heads' : List Handle}
    (h : reviseChain pruning (Generation.chainsOf g heads).flatten
      = reviseChain pruning (Generation.chainsOf g' heads').flatten) :
    (parallel r).SameChains g g' heads heads' := by
  have hleft : ∀ {ts : List BlockTree}, [reviseChain pruning ts].flatten = reviseChain pruning ts := flatten_singleton
  refine ⟨?_, fun margin => ?_⟩
  · rw [hcat]
    exact rel_of_rel (Comparison.rel_prescan (.inr rfl) (hleft.trans h.symm))
      (Comparison.rel_prescan (.inr rfl) hleft)
  · rw [hcat]
    exact rel_of_rel (reporting_parallel.emitChains margin (hleft.trans h.symm))
      (reporting_parallel.emitChains margin hleft)

end NqcBlocks
