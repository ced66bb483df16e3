import NqcBlocks.Proofs.Program.Shape

/-!
# Warnings

What compiling a program warns about comes from two sides. Validation leaves a warning with every task that
breaks a rule, and the generator notes every operand that binds too loosely for its place. Once a program has
been validated there is nothing else: the plan of its sections leaves no task out. Each of these warnings is a
text of one line and none of them is empty, so that the warnings of a compilation are those that the blocks of
the validated graph carry, in order of creation, and then those of the reports (`Compilation.warnings_ofGraph`).
-/

namespace NqcBlocks

open Nqc Text List Option Generation

variable {w : String} {report : CodeReport}

def Graph.warnings (g : Graph) : List Warning :=
  g.nodes.filterMap fun n => n.warning.map (some n.handle, ·)

def CodeReport.warnings (reports : List CodeReport) : List Warning :=
  reports.filterMap fun r => r.warning.map (r.node, ·)

def IsLine (s : String) : Prop := s ≠ "" ∧ Inline s

instance (s : String) : Decidable (IsLine s) := inferInstanceAs (Decidable (_ ∧ _))

theorem IsLine.append {s t : String} (hs : IsLine s) (ht : Inline t) : IsLine (s ++ t) :=
  ⟨fun h => hs.1 (String.append_eq_empty_iff.mp h).1, hs.2.append ht⟩

theorem IsLine.someText {s : String} (hs : IsLine s) : someText s = some s :=
  if_neg (by simpa using hs.1)

theorem inline_natText (n : Nat) : Inline (Number.natText n) := by
  intro c hc
  unfold Number.natText at hc
  rw [String.toList_ofList] at hc
  exact isInline_of_mem_toDigits hc

/-! ## Notes of the generator -/

section Notes

variable {n : Node} {spec : BlockSpec}

theorem Node.Conforms.inline_slot (hc : n.Conforms spec) {slot : String}
    (hslot : slot ∈ n.valueSlots.names) : Inline slot := by
  cases hshape : spec.shape with
  | fixed =>
    rw [(hc.slotNames hshape).1] at hslot
    have hall : ∀ s ∈ spec.valueSlots, Inline s.name := by
      have hknown := hc.known
      cases hk : n.kind <;> rw [hk] at hknown <;> cases hknown <;> decide
    obtain ⟨s, hs, rfl⟩ := List.mem_map.mp hslot
    exact hall s hs
  | branches =>
    obtain ⟨count, -, hvalues, -⟩ := hc.branchNames hshape
    rw [hvalues] at hslot
    obtain ⟨i, -, rfl⟩ := List.mem_map.mp hslot
    exact Inline.append (by decide) (inline_natText i)

theorem Node.Conforms.inline_tag (hc : n.Conforms spec) : Inline n.kind.tag := by
  have hknown := hc.known
  cases hk : n.kind <;> rw [hk] at hknown <;> first | decide | cases hknown

theorem CodeNote.IsGrouping.isLine {g : Graph} {σ : Spelling} (hσ : σ.Named) {note : CodeNote}
    (h : note.IsGrouping g σ) : IsLine note.text := by
  obtain ⟨t, n, spec, slot, ht, hval, hc, hslot, htext⟩ := h
  rw [htext]
  have hcode : Inline (t.reading σ).expr.text := (ht.worded_reading hσ hval).inline
  have htag : Inline n.kind.tag := hc.inline_tag
  have hname : Inline slot := hc.inline_slot hslot
  have hquote : IsLine "\"" := by decide
  have hplace : Inline "\" binds looser than its place in " := by decide
  have hdot : Inline "." := by decide
  have hadvice : Inline "; add a grouping block if the result is wrong." := by decide
  exact (((((hquote.append hcode).append hplace).append htag).append hdot).append hname).append hadvice

end Notes

namespace Generation

open Graph

variable {g : Graph} {r : Resolver} {options : Options}

theorem isLine_of_mem_chainReports (hg : g.Forest) {heads : List Handle} (hheads : Heads g heads)
    (key : ScopeKey) (margin : String)
    (hreport : report ∈ chainReports g r options key margin heads) (hw : report.warning = some w) :
    IsLine w := by
  obtain ⟨t, ht, hreport⟩ := mem_flatMap.mp hreport
  unfold blockReports at hreport
  rcases mem_cons.mp hreport with rfl | hreport
  · split at hw <;> cases hw
  · obtain ⟨note, hnote, rfl⟩ := List.mem_map.mp hreport
    cases hw
    have hσ : (spellingOf g r key heads).Named := r.isName_spell
    exact ((hheads.trees hg t ht).1.isGrouping_of_mem_notes hnote).isLine hσ

theorem isLine_of_mem_taskReports (hg : g.Forest) {t : TaskHead} (hheads : Heads g t.heads)
    (hreport : report ∈ taskReports g r options t) (hw : report.warning = some w) : IsLine w := by
  unfold taskReports at hreport
  rw [cons_append, mem_cons, mem_append, mem_singleton] at hreport
  rcases hreport with rfl | hreport | rfl
  · cases hw
  · exact isLine_of_mem_chainReports hg hheads _ _ hreport hw
  · cases hw

theorem isLine_of_mem_sectionReports (hg : g.Forest) {sec : Section} (hsec : Ready g sec)
    (hreport : report ∈ sectionReports g r options sec) (hw : report.warning = some w) : IsLine w := by
  cases hsec with
  | preamble text =>
    rw [mem_singleton.mp hreport] at hw
    cases hw
  | @global loose hheads =>
    rcases mem_cons.mp hreport with rfl | hreport
    · cases hw
    · exact isLine_of_mem_chainReports hg hheads _ _ hreport hw
  | @task n hn hk =>
    rw [sectionReports, hn, map_some, getD_some] at hreport
    exact isLine_of_mem_taskReports hg (heads_task hg hn (hk.imp id (·.1))) hreport hw
  | @main loose hheads => exact isLine_of_mem_taskReports (t := looseHead loose) hg hheads hreport hw

theorem isLine_of_mem_sectionsReports (hg : g.Forest) : ∀ {ss : List Section}, (∀ sec ∈ ss, Ready g sec) →
    ∀ {report : CodeReport}, report ∈ sectionsReports g r options ss → ∀ {w : String},
      report.warning = some w → IsLine w
  | [], _, _, hreport, _, _ => by cases hreport
  | [sec], hss, _, hreport, _, hw =>
    isLine_of_mem_sectionReports hg (hss sec mem_cons_self) hreport hw
  | sec :: sec' :: rest, hss, report, hreport, w, hw => by
    rw [sectionsReports, mem_append, mem_cons] at hreport
    rcases hreport with hreport | rfl | hreport
    · exact isLine_of_mem_sectionReports hg (hss sec mem_cons_self) hreport hw
    · cases hw
    · exact isLine_of_mem_sectionsReports hg (fun s hs => hss s (mem_cons_of_mem _ hs)) hreport hw
    · exact cons_ne_nil _ _

theorem isLine_of_mem_programReports (hg : g.Forest) (hs : g.Settled)
    (hreport : report ∈ programReports g options) (hw : report.warning = some w) : IsLine w := by
  unfold programReports at hreport
  dsimp only at hreport
  rw [(hg.plan_of_settled hs _).2.2] at hreport
  simp only [map_nil, cons_append, nil_append, mem_cons, mem_append, not_mem_nil, or_false] at hreport
  rcases hreport with rfl | hreport | rfl
  · cases hw
  · exact isLine_of_mem_sectionsReports hg (ready_sections hg options) hreport hw
  · cases hw

end Generation

/-! ## Warnings of the validation -/

namespace Graph

variable {g : Graph}

theorem Forest.isLine_of_ruling (hg : g.Forest) {n : Node} (hn : n ∈ g.nodes) {v : Verdict}
    (hv : g.ruling n = some v) (hw : v.warning = some w) : IsLine w := by
  obtain ⟨-, spec, hc⟩ := hg.sound (hg.mem_nodes_iff_get?.mp hn)
  unfold ruling at hv
  cases hk : n.kind <;> rw [hk] at hv <;> try cases hv
  case mainTask =>
    split at hw <;> cases hw
    decide
  case namedTask =>
    have hknown := hc.known
    rw [hk] at hknown
    cases hknown
    have hname := (hc.identifier mem_cons_self rfl).2
    split at hw
    · cases hw
      decide
    · next hne =>
      have hinline : Inline (n.text "NAME") := inline_of_isName (hname.resolve_left fun h => hne h.1)
      split at hw
      · cases hw
        have hstart : IsLine "Reserved name: \"" := by decide
        exact (hstart.append hinline).append (by decide)
      · split at hw <;> cases hw
        have hstart : IsLine "Duplicate name: another task is already called \"" := by decide
        exact (hstart.append hinline).append (by decide)

theorem Forest.warnings_validate (hg : g.Forest) (hplain : ∀ n ∈ g.nodes, n.kind.isTask = false → n.warning = none) :
    g.review.2.filterMap (fun r => (r.warning.bind someText).map (some r.node, ·)) = g.validate.1.warnings
      ∧ ∀ w ∈ g.validate.1.warnings, IsLine w.2 := by
  have hnode : ∀ n ∈ g.nodes, (g.finding? n).bind (fun r => (r.warning.bind someText).map (some r.node, ·))
        = (g.due n).warning.map (some n.handle, ·) ∧ ∀ w, (g.due n).warning = some w → IsLine w := by
    intro n hn
    unfold finding? due
    cases hv : g.ruling n with
    | none =>
      have hnone : n.flags.warning = none := by
        refine hplain n hn ?_
        rw [← isSome_ruling (g := g), hv]
        rfl
      rw [getD_none, hnone]
      exact ⟨rfl, nofun⟩
    | some v =>
      refine ⟨?_, fun w hw => hg.isLine_of_ruling hn hv hw⟩
      show ((v.warning.bind someText).map _ : Option Warning) = v.warning.map _
      cases hw : v.warning with
      | none => rfl
      | some w => rw [bind_some, (hg.isLine_of_ruling hn hv hw).someText]; rfl
  unfold Graph.warnings
  rw [hg.nodes_validate, hg.review_eq, filterMap_filterMap, filterMap_map]
  refine ⟨filterMap_congr fun n hn => (hnode n hn).1, fun w hw => ?_⟩
  obtain ⟨n, hn, hw⟩ := mem_filterMap.mp hw
  obtain ⟨text, htext, rfl⟩ := map_eq_some_iff.mp hw
  exact (hnode n hn).2 text htext

end Graph

/-! ## Both together -/

theorem Compilation.warnings_ofGraph {g : Graph} (hg : g.Forest)
    (hplain : ∀ n ∈ g.nodes, n.kind.isTask = false → n.warning = none) {options : Options}
    (herror : (ofGraph g options).error = none) :
    let reports := (run g.validate.1 options).1
    (ofGraph g options).warnings = g.validate.1.warnings ++ CodeReport.warnings reports
      ∧ ∀ w ∈ (ofGraph g options).warnings, IsLine w.2 := by
  intro reports
  obtain ⟨hvalidation, hlines⟩ := hg.warnings_validate hplain
  have hrun : run g.validate.1 options = ((ofGraph g options).reports, none) := herror ▸ run_ofGraph g options
  have hreports : ∀ r ∈ reports, ∀ w, r.warning = some w → IsLine w := by
    intro r hr w hw
    rcases run_outcome hg.validate.forest options with
      ⟨-, h⟩ | ⟨_, -, -, h⟩ | ⟨_, -, -, h⟩
    · have hprogram : reports = programReports g.validate.1 options := congrArg Prod.fst h
      exact isLine_of_mem_programReports hg.validate.forest hg.settled_validate (hprogram ▸ hr) hw
    · rw [hrun] at h
      cases h
    · rw [hrun] at h
      cases h
  have hgenerated : reports.filterMap (fun r => (r.warning.bind someText).map (r.node, ·))
      = CodeReport.warnings reports := by
    refine filterMap_congr fun r hr => ?_
    cases hw : r.warning with
    | none => rfl
    | some w => rw [bind_some, (hreports r hr w hw).someText]
  have hwarnings : (ofGraph g options).warnings = g.validate.1.warnings ++ CodeReport.warnings reports := by
    rw [← hvalidation, ← hgenerated]
    rfl
  refine ⟨hwarnings, fun w hw => ?_⟩
  rw [hwarnings] at hw
  rcases mem_append.mp hw with hw | hw
  · exact hlines w hw
  · obtain ⟨r, hr, hw⟩ := mem_filterMap.mp hw
    obtain ⟨text, htext, rfl⟩ := map_eq_some_iff.mp hw
    exact hreports r hr text htext

end NqcBlocks
