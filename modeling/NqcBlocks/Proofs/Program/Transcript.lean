import NqcBlocks.Proofs.Program.Shape

/-!
# Programs section by section

Generating a program with a transcript: for each section, in order, the text that generating it added to the
program. Nothing else is different (`emitProgram_eq_transcribe`). In closed form (`transcript_of_code`) the
transcript has the sections of the plan, and what each of them adds is a function of the graph and of the names in
use at the start, in which the other sections have no part; the program is what the sections' texts come to with
empty lines in between.
-/

namespace NqcBlocks

open Gen List

namespace Generation

/-! ## Transcripts -/

def transcribeSection (g : Graph) (s : Section) : Gen (Section × String) := do
  let before := (← get).reports
  emitSection g s
  let reports := (← get).reports.drop before.length
  pure (s, CodeReport.code reports)

def transcribeSections (g : Graph) : List Section → Gen (List (Section × String))
  | [] => pure []
  | [s] => do pure [← transcribeSection g s]
  | s :: rest => do
    let first ← transcribeSection g s
    emitSeparator
    pure (first :: (← transcribeSections g rest))

def transcribePlanned (g : Graph) : Gen (List (Section × String)) := do
  let p ← Plan.ofGraph g
  Gen.emit (startReport p)
  for (h, reason) in p.skipped do
    Gen.emit (.warn h reason)
  let texts ← transcribeSections g (sections (← get).options p)
  Gen.emit endReport
  pure texts

def transcribeProgram (g : Graph) : Gen (List (Section × String)) := do
  Gen.begin g
  transcribePlanned g

def transcript (g : Graph) (options : Options := {}) : Except GenError (List (Section × String)) :=
  ((transcribeProgram g).run.run (.start options)).1

/-! ## Transcribing changes nothing -/

theorem emitSection_eq_transcribe (g : Graph) (s : Section) :
    emitSection g s = (fun _ => ()) <$> transcribeSection g s := by
  have hget : (fun _ : Context => ()) <$> (get : Gen Context) = pure () := rfl
  simp [transcribeSection, get_bind_const, hget]

theorem emitSections_eq_transcribe (g : Graph) : ∀ ss : List Section,
    emitSections g ss = (fun _ => ()) <$> transcribeSections g ss
  | [] => rfl
  | [s] => by simp [emitSections, transcribeSections, emitSection_eq_transcribe]
  | s :: s' :: rest => by
    show emitSection g s >>= (fun _ => emitSeparator >>= fun _ => emitSections g (s' :: rest)) = (fun _ => ()) <$> (do
        let first ← transcribeSection g s
        emitSeparator
        pure (first :: (← transcribeSections g (s' :: rest))))
    simp [emitSections_eq_transcribe g (s' :: rest), emitSection_eq_transcribe]

theorem emitProgram_eq_transcribe (g : Graph) : emitProgram g = (fun _ => ()) <$> transcribeProgram g := by
  unfold emitProgram transcribeProgram transcribePlanned
  simp [emitSections_eq_transcribe]

theorem exec_transcribeProgram_of_run {g : Graph} {options : Options} (hrun : (run g options).2 = none) :
    ∃ texts d, exec (transcribeProgram g) (.start options) = (.ok texts, d) := by
  have hexec : (emitProgram g).run.run (.start options)
      = exec (transcribeProgram g >>= fun _ => pure ()) (.start options) := by
    rw [emitProgram_eq_transcribe, map_eq_pure_bind]
    rfl
  unfold run at hrun
  rw [hexec, exec_bind] at hrun
  rcases htexts : exec (transcribeProgram g) (.start options) with ⟨e | texts, d⟩
  · rw [htexts] at hrun
    cases hrun
  · exact ⟨texts, d, rfl⟩

/-! ## The transcript in closed form -/

section Ends

variable {g : Graph} {r : Resolver} {c : Context}

theorem ends_transcribeSection (hg : g.Forest) {sec : Section} (hsec : Ready g sec)
    (hs : c.scope = none) (hnotes : c.notes = []) :
    Ends g r (transcribeSection g sec) c (sectionNames g sec)
      (sec, CodeReport.code (sectionReports g r c.options sec))
      { c with reports := c.reports ++ sectionReports g r c.options sec } := by
  have hemit : Ends g r (emitSection g sec) c (sectionNames g sec) ()
      { c with reports := c.reports ++ sectionReports g r c.options sec } := by
    rw [emitSection_eq]
    exact (ends_recordSection hg hsec hs hnotes).map
  unfold transcribeSection
  refine .get_bind fun _ _ => hemit.bind_last (.get_bind fun _ _ => ?_)
  rw [drop_left]
  exact .pure _ _

theorem ends_transcribeSections (hg : g.Forest) : ∀ {ss : List Section}, (∀ sec ∈ ss, Ready g sec) →
    ∀ {c : Context}, c.scope = none → c.notes = [] →
      Ends g r (transcribeSections g ss) c { u | ∃ sec ∈ ss, u ∈ sectionNames g sec }
        (ss.map fun sec => (sec, CodeReport.code (sectionReports g r c.options sec)))
        { c with reports := c.reports ++ sectionsReports g r c.options ss }
  | [], _, c, _, _ => by
    rw [transcribeSections, sectionsReports, append_nil]
    refine (Ends.pure _ c).congr_uses ?_
    ext u
    simp
  | [sec], hss, c, hs, hnotes => by
    rw [transcribeSections, sectionsReports, map_singleton]
    refine Ends.congr_uses ((ends_transcribeSection hg (hss sec mem_cons_self) hs hnotes).bind_last (.pure _ _)) ?_
    ext u
    simp
  | sec :: sec' :: rest, hss, c, hs, hnotes => by
    have hfirst := ends_transcribeSection (r := r) hg (hss sec mem_cons_self) hs hnotes
    have hrest := ends_transcribeSections hg (fun x hx => hss x (mem_cons_of_mem _ hx))
      (c := { c with reports := c.reports ++ sectionReports g r c.options sec
        ++ [{ message := "Separating sections.", newCode := "\n" }] }) hs hnotes
    have hreports : c.reports ++ sectionsReports g r c.options (sec :: sec' :: rest)
        = c.reports ++ sectionReports g r c.options sec ++ [{ message := "Separating sections.", newCode := "\n" }]
          ++ sectionsReports g r c.options (sec' :: rest) := by
      simp [sectionsReports]
    rw [hreports, map_cons]
    refine Ends.congr_uses (hfirst.bind ((ends_emit _).bind_step (hrest.bind_last (.pure _ _)))) ?_
    ext u
    simp

theorem ends_transcribePlanned (hg : g.Forest) (options : Options) :
    Ends g (g.resolver options.policy) (transcribePlanned g) (.start options) (programNames g options)
      ((sections options (g.plan (g.resolver options.policy))).map fun sec =>
        (sec, CodeReport.code (sectionReports g (g.resolver options.policy) options sec)))
      { Context.start options with reports := programReports g options } := by
  have hsections := ends_transcribeSections (r := g.resolver options.policy) hg
    (ready_sections (r := g.resolver options.policy) hg options)
    (c := { Context.start options with reports := [startReport (g.plan (g.resolver options.policy))]
      ++ (g.plan (g.resolver options.policy)).skipped.map fun (h, reason) => .warn h reason }) rfl rfl
  unfold transcribePlanned programReports
  refine (ends_plan hg rfl _).bind ((ends_emit _).bind_step
    ((ends_forIn_emit (fun x : Handle × String => .warn x.1 x.2) _ _).bind_step
      (.get_bind fun _ _ => hsections.bind_last ?_)))
  exact (ends_emit endReport).bind_step (.pure _ _)

/-- **The transcript of a program that is generated**: its sections are those of the plan, and what is added for
each of them is what its blocks describe. The program is what they come to, with empty lines in between. -/
theorem transcript_of_code (hg : g.Forest) {options : Options} {text : String} (hcode : code g options = .ok text) :
    let r := g.resolver options.policy
    transcript g options = .ok ((sections options (g.plan r)).map fun sec =>
        (sec, CodeReport.code (sectionReports g r options sec)))
      ∧ text = "\n".intercalate ((sections options (g.plan r)).map fun sec =>
        CodeReport.code (sectionReports g r options sec)) := by
  intro r
  obtain ⟨hdone, htext⟩ := code_eq_ok hcode
  obtain ⟨-, hreports, -⟩ := exec_of_run hg hdone
  refine ⟨?_, ?_⟩
  · have hbegin : exec (transcribeProgram g) (.start options)
        = exec (transcribePlanned g) { Context.start options with names := r } := by
      refine exec_bind_ok (a := ()) ?_
      unfold Gen.begin
      rw [if_pos hg.isNamed]
      rfl
    obtain ⟨texts, d, hexec⟩ := exec_transcribeProgram_of_run hdone
    show (exec (transcribeProgram g) (.start options)).1 = _
    rw [hexec]
    rw [hbegin] at hexec
    exact congrArg _ ((ends_transcribePlanned hg options).eq_of_ok (.refl rfl) hexec).2.1
  · rw [htext, hreports, code_programReports, code_sectionsReports]

end Ends

end Generation

end NqcBlocks
