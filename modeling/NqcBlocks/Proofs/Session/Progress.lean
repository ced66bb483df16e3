import NqcBlocks.Proofs.Program.Reference
import NqcBlocks.Proofs.Program.Streaming

/-!
# The progress of a session

A session that takes its steps one by one is, at every moment, part of the way to what compiling the
graph at once comes to. While it validates, the reports it has had are the first of those of `review`,
and the rest of them is still to come (`Session.Validating`); while it generates, the reports it has had
are the first of those of `Generation.run` (`Session.Generating`). The code and the warnings that the
session has collected are those of the reports it has had.
-/

namespace NqcBlocks

open List CodeReport

variable {s s' : Session} {g : Graph}

namespace Session

/-! ## What is collected -/

def validationWarnings (reports : List ValidationReport) : List Warning :=
  reports.filterMap fun r => (r.warning.bind someText).map (some r.node, ·)

def codeWarnings (reports : List CodeReport) : List Warning :=
  reports.filterMap fun r => (r.warning.bind someText).map (r.node, ·)

theorem warn_eq (s : Session) (node : Option Handle) (warning : Option String) : s.warn node warning
      = { s with warnings := s.warnings ++ ((warning.bind someText).map (node, ·)).toList } := by
  unfold warn
  cases warning.bind someText with
  | none => simp
  | some text => rfl

theorem validationWarnings_concat (reports : List ValidationReport) (r : ValidationReport) :
    validationWarnings (reports ++ [r])
      = validationWarnings reports ++ ((r.warning.bind someText).map (some r.node, ·)).toList := by
  unfold validationWarnings
  rw [filterMap_append, filterMap_cons]
  cases (r.warning.bind someText).map (some r.node, ·) <;> rfl

theorem codeWarnings_concat (reports : List CodeReport) (r : CodeReport) : codeWarnings (reports ++ [r])
      = codeWarnings reports ++ ((r.warning.bind someText).map (r.node, ·)).toList := by
  unfold codeWarnings
  rw [filterMap_append, filterMap_cons]
  cases (r.warning.bind someText).map (r.node, ·) <;> rfl

/-! ## Validation -/

/-- **A session on its way through the validation of a graph.** -/
structure Validating (g : Graph) (s : Session) : Prop where
  under_way : ∃ run had left, s.validation = some run
    ∧ ValidationRun.Completes run s.graph left g.validate.1
    ∧ g.review.2 = had ++ left ∧ s.warnings = validationWarnings had

/-- **A session that has validated a graph.** -/
structure Validated (g : Graph) (s : Session) : Prop where
  graph : s.graph = g.validate.1
  warnings : s.warnings = validationWarnings g.review.2

theorem validating_begin (hg : g.Forest) (hs : s.graph = g) : Validating g s.beginValidation :=
  ⟨{}, [], g.review.2, rfl, hs ▸ hg.completes_iff.mpr ⟨rfl, rfl⟩, rfl, rfl⟩

theorem Validating.tick {o : Except SessionError (Option ValidationReport)} (hs : Validating g s)
    (h : s.tickValidation = (s', o)) : (∃ r, o = .ok (some r) ∧ Validating g s') ∨ o = .ok none ∧ Validated g s' := by
  obtain ⟨run, had, left, hrun, hcompletes, hreview, hwarnings⟩ := hs.under_way
  unfold tickValidation at h
  rw [hrun] at h
  dsimp only at h
  cases hcompletes with
  | finished hstep =>
    rw [hstep] at h
    cases h
    exact .inr ⟨rfl, rfl, by rw [hreview, append_nil]; exact hwarnings⟩
  | report hstep hrest =>
    rw [hstep] at h
    cases h
    rw [warn_eq]
    refine .inl ⟨_, rfl, _, had ++ [_], _, rfl, hrest, hreview.trans (append_cons _ _ _), ?_⟩
    rw [validationWarnings_concat, ← hwarnings]
    rfl

/-! ## Generation -/

/-- **What a step of the generation can come to**: it hands out the first of the reports that are left; or
there is none left; or what is left is an error, and it comes now. The graph stays as it is. -/
theorem tickCode_cases {o : Except SessionError (Option CodeReport)} {run : CodeRun}
    (hg : s.graph.Grounded) (hrun : s.codeRun = some run) (h : s.tickCode = (s', o)) :
    ∃ run', s'.codeRun = some run' ∧ s'.editor = s.editor
      ∧ ((∃ r, o = .ok (some r)
          ∧ run.rest s.graph = (r :: (run'.rest s.graph).1, (run'.rest s.graph).2)
          ∧ s'.outputCode = s.outputCode ++ r.newCode.getD ""
          ∧ s'.warnings = s.warnings ++ ((r.warning.bind someText).map (r.node, ·)).toList)
        ∨ (run'.rest s.graph = ([], none) ∧ s'.outputCode = s.outputCode ∧ s'.warnings = s.warnings
          ∧ ((o = .ok none ∧ run.rest s.graph = ([], none))
            ∨ ∃ e, o = .error (.generation e) ∧ run.rest s.graph = ([], some e)))) := by
  unfold tickCode at h
  rw [hrun] at h
  dsimp only at h
  rcases hstep : run.step s.graph with ⟨run', outcome⟩
  rw [hstep] at h
  rcases CodeRun.rest_of_step hg hstep with ⟨r, rfl, hleft⟩ | ⟨rfl, hleft, hover⟩ | ⟨e, rfl, hleft, hover⟩
  · obtain ⟨rfl, rfl⟩ := Prod.mk.inj h
    rw [warn_eq]
    exact ⟨run', rfl, rfl, .inl ⟨r, rfl, hleft, rfl, rfl⟩⟩
  · obtain ⟨rfl, rfl⟩ := Prod.mk.inj h
    exact ⟨run', rfl, rfl, .inr ⟨hover, rfl, rfl, .inl ⟨rfl, hleft⟩⟩⟩
  · obtain ⟨rfl, rfl⟩ := Prod.mk.inj h
    exact ⟨run', rfl, rfl, .inr ⟨hover, rfl, rfl, .inr ⟨e, rfl, hleft⟩⟩⟩

/-- **A session on its way through the generation of a graph's program**, which it started with some
warnings. -/
structure Generating (g : Graph) (options : Options) (before : List Warning) (s : Session) : Prop where
  graph : s.graph = g
  under_way : ∃ run had, s.codeRun = some run
    ∧ Generation.run g options = (had ++ (run.rest g).1, (run.rest g).2)
    ∧ s.outputCode = CodeReport.code had ∧ s.warnings = before ++ codeWarnings had

theorem generating_begin (hs : s.graph = g) (options : Options) :
    Generating g options s.warnings (s.beginCode options) where
  graph := hs
  under_way := ⟨.start options, [], rfl, by rw [CodeRun.rest_start]; rfl, rfl, (append_nil _).symm⟩

theorem Generating.tick (hg : g.Grounded) {options : Options} {before : List Warning}
    {o : Except SessionError (Option CodeReport)} (hs : Generating g options before s)
    (h : s.tickCode = (s', o)) :
    (∃ r, o = .ok (some r) ∧ Generating g options before s')
    ∨ (o = .ok none ∧ ∃ reports, Generation.run g options = (reports, none)
      ∧ s'.outputCode = code reports ∧ s'.warnings = before ++ codeWarnings reports)
    ∨ ∃ e, o = .error (.generation e) ∧ s'.graph = g ∧ (Generation.run g options).2 = some e := by
  obtain ⟨run, had, hrun, hrest, hcode, hwarnings⟩ := hs.under_way
  obtain rfl := hs.graph
  obtain ⟨run', hrun', heditor, hcases⟩ := tickCode_cases hg hrun h
  have hgraph : s'.graph = s.graph := congrArg Editor.graph heditor
  rcases hcases with ⟨r, rfl, hleft, hcode', hwarnings'⟩
    | ⟨-, hcode', hwarnings', ⟨rfl, hleft⟩ | ⟨e, rfl, hleft⟩⟩
  · refine .inl ⟨r, rfl, hgraph, run', had ++ [r], hrun', ?_, ?_, ?_⟩
    · rw [hrest, hleft, append_assoc]
      rfl
    · rw [hcode', code_append, code_singleton, hcode]
    · rw [hwarnings', codeWarnings_concat, hwarnings, append_assoc]
  · rw [hleft, append_nil] at hrest
    exact .inr (.inl ⟨rfl, had, hrest, hcode'.trans hcode, hwarnings'.trans hwarnings⟩)
  · rw [hleft] at hrest
    exact .inr (.inr ⟨e, rfl, hgraph, by rw [hrest]⟩)

end Session

end NqcBlocks
