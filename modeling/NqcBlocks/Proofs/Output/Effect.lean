import NqcBlocks.Proofs.Files.Disk
import NqcBlocks.Proofs.Program.Warnings
import NqcBlocks.Proofs.Workspace.Growth

/-!
# The effect of compiling a file

A run reads the workspace, validates it and generates the whole program before it touches the disk. So a run
that ends with a report of what is wrong has changed nothing, and one that has written the program has changed
one file: `Disk.Writes` says that a file is where it belongs, that directories may have been made on the way
to it, and that all else is as it was. What is said about a program that was written is one line, and one more
for each warning.
-/

namespace NqcBlocks

open Files List String Workspace Compilation

variable {d : Disk} {path : Path}

namespace Files.Disk

/-- **One file has been written**: a text is at the place, where no directory was, directories may have been
made at some places where nothing was, and all other places are as they were. -/
structure Writes (d d' : Disk) (places : List Location) (l : Location) (text : String) : Prop where
  cwd : d'.cwd = d.cwd
  notDirectory : d.entry? l ≠ some .directory
  file : d'.entry? l = some (.file (.text text))
  other : ∀ x ≠ l, d'.entry? x = d.entry? x
    ∨ x ∈ places ∧ d.entry? x = none ∧ d'.entry? x = some .directory

theorem OnlyMakes.writes {d₁ : Disk} {places : List Location} (h : OnlyMakes d d₁ places)
    {l : Location} (hl : l ≠ []) (hdir : d₁.entry? l ≠ some .directory) (text : String) :
    Writes d (d₁.put l (.file (.text text))) places l text where
  cwd := h.cwd
  notDirectory := by
    rcases h.entry l with hkept | ⟨-, hnone, -⟩
    · rwa [← hkept]
    · rw [hnone]
      exact nofun
  file := by rw [entry?_put d₁ hl, if_pos rfl]
  other := by
    intro x hx
    rw [entry?_put d₁ hl, if_neg hx]
    exact h.entry x

end Files.Disk

theorem writeProgram_cases (d : Disk) (directory file : Path) (code : String) :
    (∃ cause, (writeProgram d directory file code).2 = .error cause
      ∧ Disk.OnlyMakes d (writeProgram d directory file code).1 (directory.way d.cwd))
    ∨ ∃ text, Disk.Writes d (writeProgram d directory file code).1 (directory.way d.cwd) (file.resolve d.cwd) text
      ∧ ((writeProgram d directory file code).2 = .ok () → text = code) := by
  have hmakes := Disk.onlyMakes_makeDirs d directory
  unfold writeProgram
  rcases hmade : d.makeDirs directory with ⟨d₁, _ | _⟩
  · next cause =>
    rw [hmade] at hmakes
    exact .inl ⟨cause, rfl, hmakes⟩
  · rw [hmade] at hmakes
    dsimp only at hmakes ⊢
    rcases d₁.write_cases file code with ⟨cause, hwrite⟩ | ⟨hne, hdir, hwrite⟩
    · rw [hwrite]
      exact .inl ⟨cause, rfl, hmakes⟩
    · rw [hmakes.cwd] at hne hdir hwrite
      rw [hwrite]
      right
      split
      · exact ⟨"", hmakes.writes hne hdir "", nofun⟩
      · exact ⟨code, hmakes.writes hne hdir code, fun _ => rfl⟩

theorem writes_of_writeProgram {d' : Disk} {directory file : Path} {code : String}
    (h : writeProgram d directory file code = (d', .ok ())) :
    Disk.Writes d d' (directory.way d.cwd) (file.resolve d.cwd) code := by
  have hcases := writeProgram_cases d directory file code
  rw [h] at hcases
  obtain ⟨cause, hcause, -⟩ | ⟨text, hwrites, htext⟩ := hcases
  · cases hcause
  · exact htext rfl ▸ hwrites

/-! ## What is said -/

theorem count_newline_of_inline {s : String} (h : Nqc.Inline s) : s.toList.count '\n' = 0 :=
  List.count_eq_zero.mpr fun hmem => absurd (h _ hmem) (by decide)

theorem count_newline_warningLine {w : Warning} (h : IsLine w.2) : (warningLine w).toList.count '\n' = 1 := by
  obtain ⟨node, text⟩ := w
  have htext := count_newline_of_inline h.2
  cases node with
  | none =>
    simp only [warningLine, toList_append, count_append, htext]
    decide
  | some node =>
    have hnode := count_newline_of_inline (inline_natText node)
    simp only [warningLine, toList_append, count_append, htext, hnode]
    decide

theorem count_newline_completion (path : Path) {warnings : List Warning} (h : ∀ w ∈ warnings, IsLine w.2) :
    (completion path warnings).toList.count '\n' = path.text.toList.count '\n' + warnings.length := by
  have hdone : ("Code generation completed. Output written to " ++ path.text ++ ".").toList.count '\n'
      = path.text.toList.count '\n' := by
    simp only [toList_append, count_append]
    rw [show "Code generation completed. Output written to ".toList.count '\n' = 0 by decide,
      show ".".toList.count '\n' = 0 by decide, Nat.zero_add, Nat.add_zero]
  have hlines : (String.join (warnings.map warningLine)).toList.count '\n' = warnings.length := by
    induction warnings with
    | nil => rfl
    | cons w warnings ih =>
      obtain ⟨hw, hrest⟩ := forall_mem_cons.mp h
      rw [map_cons, join_cons, toList_append, count_append,
        count_newline_warningLine hw, ih hrest, length_cons, Nat.add_comm]
  unfold completion
  dsimp only
  split
  · next hempty => rw [hdone, List.isEmpty_iff.mp hempty, length_nil, Nat.add_zero]
  · have hlength := count_newline_of_inline (inline_natText warnings.length)
    simp only [toList_append, count_append, hlength] at hdone ⊢
    rw [hdone, hlines]
    rfl

/-! ## Runs -/

theorem code_validate (g : Graph) (options : Options) :
    Generation.code g.validate.1 options = match (ofGraph g options).error with
      | none => .ok (ofGraph g options).code
      | some e => .error e := by
  have hrun : Generation.run g.validate.1 options = ((ofGraph g options).reports, (ofGraph g options).error) :=
    Generation.run_ofGraph g options
  unfold Generation.code
  rw [hrun]
  cases (ofGraph g options).error <;> rfl

theorem exists_of_ofFile {g : Graph} (h : ofFile d path = .ok g) :
    ∃ text document, d.readText path = .ok text ∧ Json.parse text = .ok document
      ∧ toGraph document = .ok g := by
  unfold ofFile at h
  split at h
  · cases h
  · cases h
  · next text htext =>
    split at h
    · cases h
    · cases h
    · next document hparse =>
      refine ⟨text, document, htext, hparse, ?_⟩
      cases hload : toGraph document with
      | error cause =>
        rw [hload] at h
        cases h
      | ok g' =>
        rw [hload] at h
        cases h
        rfl

theorem loaded_of_ofFile {g : Graph} (h : ofFile d path = .ok g) : g.Forest ∧ ∀ n ∈ g.nodes, n.warning = none := by
  obtain ⟨-, document, -, -, hload⟩ := exists_of_ofFile h
  refine ⟨(forest_of_toGraph hload), fun n hn => ?_⟩
  obtain ⟨p, -, hp⟩ := exists_placement hload hn
  have hwarning : n.bare.warning = p.node.bare.warning := by rw [hp]
  exact hwarning

/-! ### Files of ASCII characters

A file that holds no other characters can be read byte by byte, and without putting a text together first. -/

def Text.asciiChars (s : String) : List Char := s.toByteArray.data.toList.map fun b => Char.ofNat b.toNat

theorem flatMap_utf8EncodeChar {bytes : List UInt8} (h : ∀ b ∈ bytes, b < 128) :
    (bytes.map fun b => Char.ofNat b.toNat).flatMap utf8EncodeChar = bytes := by
  have hencode : ∀ n < 128, utf8EncodeChar (Char.ofNat n) = [UInt8.ofNat n] := by decide
  induction bytes with
  | nil => rfl
  | cons b bytes ih =>
    obtain ⟨hb, hrest⟩ := forall_mem_cons.mp h
    rw [map_cons, flatMap_cons, hencode b.toNat hb, UInt8.ofNat_toNat, ih hrest]
    rfl

theorem toList_eq_asciiChars {s : String} (h : s.toByteArray.data.toList.all (· < 128) = true) :
    s.toList = Text.asciiChars s := by
  have hascii : ∀ b ∈ s.toByteArray.data.toList, b < 128 := fun b hb =>
    of_decide_eq_true (all_eq_true.mp h b hb)
  have hs : ofList (Text.asciiChars s) = s := by
    rw [← String.toByteArray_inj, toByteArray_ofList, utf8Encode, Text.asciiChars, flatMap_utf8EncodeChar hascii]
    exact ByteArray.ext (Array.toList_inj.mp toList_data_toByteArray)
  rw [← toList_ofList (l := Text.asciiChars s), hs]

theorem toOption_ofFile {text : String} (hread : d.read path = .ok (.text text)) :
    (ofFile d path).toOption
      = (Json.readDocument (Text.newlines text.toList)).toOption.bind fun document => (toGraph document).toOption := by
  unfold ofFile Disk.readText
  rw [hread]
  dsimp only [Content.reading?]
  rw [Text.joinNewlines, Json.parse, toList_ofList]
  cases Json.readDocument (Text.newlines text.toList) with
  | ok document =>
    dsimp only [Except.toOption, Option.bind_some]
    cases toGraph document <;> rfl
  | error r =>
    dsimp only
    cases r.locate (Text.newlines text.toList) <;> rfl

/-! ### Outcomes -/

theorem Job.run_eq_written {j : Job} {d d' : Disk} {g : Graph} (hfile : ofFile d j.input = .ok g)
    (herror : (ofGraph g j.options).error = none)
    (hwrite : writeProgram d j.directory j.file (ofGraph g j.options).code = (d', .ok ())) :
    j.run d = (d', .ok (.written j.file (completion j.file (ofGraph g j.options).warnings))) := by
  unfold Job.run
  simp only [hfile, herror, hwrite]

theorem Job.run_cases (j : Job) (d : Disk) : (∃ e, ofFile d j.input = .error e ∧ j.run d = (d, e.outcome))
    ∨ ∃ g, ofFile d j.input = .ok g
      ∧ ((∃ e, (ofGraph g j.options).error = some e ∧ j.run d = (d, e.outcome))
        ∨ (ofGraph g j.options).error = none
          ∧ ∃ d' r, writeProgram d j.directory j.file (ofGraph g j.options).code = (d', r)
            ∧ ((∃ cause, r = .error cause ∧ j.run d = (d', .error (.refused cause)))
              ∨ r = .ok () ∧ j.run d = (d', .ok (.written j.file
                  (completion j.file (ofGraph g j.options).warnings))))) := by
  unfold Job.run
  cases hfile : ofFile d j.input with
  | error e => exact .inl ⟨e, rfl, rfl⟩
  | ok g =>
    refine .inr ⟨g, rfl, ?_⟩
    cases herror : (ofGraph g j.options).error with
    | some e => exact .inl ⟨e, rfl, by simp only [herror]⟩
    | none =>
      rcases hwrite : writeProgram d j.directory j.file (ofGraph g j.options).code
        with ⟨d', cause | _⟩
      · exact .inr ⟨rfl, d', _, rfl, .inl ⟨cause, rfl, by simp only [herror, hwrite]⟩⟩
      · exact .inr ⟨rfl, d', _, rfl, .inr ⟨rfl, by simp only [herror, hwrite]⟩⟩

theorem WorkspaceError.outcome_ne_written {e : WorkspaceError} {message : String} :
    e.outcome ≠ .ok (.written path message) := by
  unfold outcome
  split
  · nofun
  · split <;> nofun

theorem GenError.outcome_ne_written {e : GenError} {message : String} : e.outcome ≠ .ok (.written path message) := by
  unfold outcome
  split <;> nofun

theorem Job.stopped_or_writes (j : Job) (d : Disk) :
    (∃ r, j.run d = (d, r) ∧ ∀ path message, r ≠ .ok (.written path message))
    ∨ ∃ g, ofFile d j.input = .ok g ∧ (ofGraph g j.options).error = none
      ∧ ∃ d' r, writeProgram d j.directory j.file (ofGraph g j.options).code = (d', r)
        ∧ ((∃ cause, r = .error cause ∧ j.run d = (d', .error (.refused cause)))
          ∨ r = .ok () ∧ j.run d = (d', .ok (.written j.file
              (completion j.file (ofGraph g j.options).warnings)))) := by
  rcases j.run_cases d with ⟨e, -, hcase⟩ | ⟨g, hfile, ⟨e, -, hcase⟩ | hwrites⟩
  · exact .inl ⟨_, hcase, fun _ _ => WorkspaceError.outcome_ne_written⟩
  · exact .inl ⟨_, hcase, fun _ _ => GenError.outcome_ne_written⟩
  · exact .inr ⟨g, hfile, hwrites⟩

/-- **The effect of a run that ends with a report.** If it is one of failure, the disk is as it was. If the
program was written, then one file has changed: that of the program, in the directory of its name under the
output root. It holds the code of the validated graph of the workspace, and what is said about it lists the
warnings, those that the blocks of the validated graph carry in order of creation and then those of the
generator in the order of its reports, on one line each. -/
theorem Job.effect_of_run {j : Job} {d d' : Disk} {outcome : Outcome}
    (hrun : j.run d = (d', .ok outcome)) :
    match outcome with
    | .failed _ => d' = d
    | .written path message =>
      path = (j.outputRoot.child j.name).child (j.name ++ ".nqc")
      ∧ ∃ g code, Workspace.ofFile d j.input = .ok g ∧ Generation.code g.validate.1 j.options = .ok code
        ∧ Disk.Writes d d' (j.directory.way d.cwd) (path.resolve d.cwd) code
        ∧ let warnings := g.validate.1.warnings
            ++ CodeReport.warnings (Generation.run g.validate.1 j.options).1
          message = completion path warnings
          ∧ (∀ w ∈ warnings, IsLine w.2)
          ∧ message.toList.count '\n' = path.text.toList.count '\n' + warnings.length := by
  rcases j.stopped_or_writes d with ⟨r, hcase, hstopped⟩
    | ⟨g, hfile, herror, d₁, r, hwrite, ⟨cause, -, hcase⟩ | ⟨rfl, hcase⟩⟩
  · rw [hrun] at hcase
    obtain ⟨rfl, rfl⟩ := Prod.mk.inj hcase
    cases outcome with
    | failed message => rfl
    | written path message => exact absurd rfl (hstopped path message)
  · rw [hrun] at hcase
    cases hcase
  · rw [hrun] at hcase
    obtain ⟨rfl, hout⟩ := Prod.mk.inj hcase
    cases hout
    obtain ⟨hforest, hplain⟩ := loaded_of_ofFile hfile
    obtain ⟨hwarnings, hlines⟩ :=
      Compilation.warnings_ofGraph hforest (fun n hn _ => hplain n hn) herror
    have hwritten := writeProgram_cases d j.directory j.file (Compilation.ofGraph g j.options).code
    rw [hwrite] at hwritten
    obtain ⟨text, hwrites, htext⟩ := hwritten.resolve_left (by rintro ⟨cause, hcause, -⟩; cases hcause)
    obtain rfl := htext rfl
    refine ⟨rfl, g, _, hfile, by rw [code_validate, herror], hwrites, ?_, ?_, ?_⟩
    · rw [hwarnings]
    · rwa [hwarnings] at hlines
    · rw [count_newline_completion j.file hlines, hwarnings]

def warnedText : String :=
  let sum := "\x7b\"block\":\x7b\"type\":\"arithmetic\"\x7d\x7d"
  let wait := "\x7b\"type\":\"wait_seconds\",\"inputs\":\x7b\"SECONDS\":" ++ sum ++ "\x7d\x7d"
  let task := "\x7b\"type\":\"main_task\"\x7d"
  "\x7b\"blocks\":[" ++ wait ++ "," ++ task ++ "," ++ task ++ "]\x7d"

def warnedGraph : Option Graph :=
  (Json.readDocument (Text.newlines (Text.asciiChars warnedText))).toOption.bind fun document =>
    (toGraph document).toOption

/-- A warning of the validation, and after it one of the generation. -/
def warnedLines : List Warning :=
  [(some 4, "Only one main task is allowed; this one is disabled."),
   (some 2, "\"0 + 0\" binds looser than its place in wait_seconds.SECONDS; "
    ++ "add a grouping block if the result is wrong.")]

theorem compiled_warnedText (hread : d.read path = .ok (.text warnedText)) : ∃ g, ofFile d path = .ok g
    ∧ (ofGraph g).error = none ∧ (ofGraph g).code = "Wait(0 + 0 * 100);\n\ntask main()\n\x7b\n\x7d\n"
    ∧ (ofGraph g).warnings = warnedLines := by
  have hgraph : (ofFile d path).toOption = warnedGraph := by
    rw [toOption_ofFile hread, toList_eq_asciiChars (by decide +kernel)]
    rfl
  have hcompiled : (warnedGraph.map fun g => ((ofGraph g).error.isNone, (ofGraph g).code, (ofGraph g).warnings))
      = some (true, "Wait(0 + 0 * 100);\n\ntask main()\n\x7b\n\x7d\n", warnedLines) := by
    decide +kernel
  rw [← hgraph] at hcompiled
  cases hfile : ofFile d path with
  | error e =>
    rw [hfile] at hcompiled
    cases hcompiled
  | ok g =>
    rw [hfile] at hcompiled
    obtain ⟨hnone, hresult⟩ := Prod.mk.inj (Option.some.inj hcompiled)
    exact ⟨g, rfl, Option.isNone_iff_eq_none.mp hnone, Prod.mk.inj hresult⟩

/-- A sum that is multiplied as it stands, and two main tasks, the second of which is disabled: a warning of
the generation, and before it one of the validation. -/
theorem Job.effect_of_run_two_warnings :
    let sum := "\x7b\"block\":\x7b\"type\":\"arithmetic\"\x7d\x7d"
    let wait := "\x7b\"type\":\"wait_seconds\",\"inputs\":\x7b\"SECONDS\":" ++ sum ++ "\x7d\x7d"
    let task := "\x7b\"type\":\"main_task\"\x7d"
    let workspace := "\x7b\"blocks\":[" ++ wait ++ "," ++ task ++ "," ++ task ++ "]\x7d"
    let program := "Wait(0 + 0 * 100);\n\ntask main()\n\x7b\n\x7d\n"
    let report := "Code generation completed. Output written to outputs/w/w.nqc. 2 warning(s):"
      ++ "\n  block 4: Only one main task is allowed; this one is disabled."
      ++ "\n  block 2: \"0 + 0\" binds looser than its place in wait_seconds.SECONDS; "
      ++ "add a grouping block if the result is wrong."
    let d : Disk := { entries := [(["w.json"], .file (.text workspace))] }
    let j : Job := { input := Path.ofString "w.json" }
    ∃ d', j.run d = (d', .ok (.written (Path.ofString "outputs/w/w.nqc") report))
      ∧ d'.entry? ["outputs", "w", "w.nqc"] = some (.file (.text program))
      ∧ ∀ x, d.entry? x ≠ none → d'.entry? x = d.entry? x := by
  intro sum wait task workspace program report d j
  have hread : d.read j.input = .ok (.text workspace) := by rfl
  obtain ⟨g, hfile, herror, hcode, hwarnings⟩ : ∃ g, ofFile d j.input = .ok g
      ∧ (ofGraph g j.options).error = none ∧ (ofGraph g j.options).code = program
      ∧ (ofGraph g j.options).warnings = warnedLines := compiled_warnedText hread
  have hpath : j.file = Path.ofString "outputs/w/w.nqc" := by decide +kernel
  have hreport : completion j.file warnedLines = report := by decide +kernel
  have hwritten : ((writeProgram d j.directory j.file program).2.toOption,
      Disk.entry? (writeProgram d j.directory j.file program).1 ["outputs", "w", "w.nqc"])
        = (some (), some (.file (.text program))) := by decide +kernel
  obtain ⟨hok, hprogram⟩ := Prod.mk.inj hwritten
  rcases hwrite : writeProgram d j.directory j.file program with ⟨d', _ | _⟩
  · rw [hwrite] at hok
    cases hok
  · rw [hwrite] at hprogram
    rw [← hcode] at hwrite
    have hrun := Job.run_eq_written hfile herror hwrite
    rw [hwarnings, hreport, hpath] at hrun
    obtain ⟨-, _, _, -, -, hwrites, -⟩ := Job.effect_of_run hrun
    have hplace : (Path.ofString "outputs/w/w.nqc").resolve d.cwd = ["outputs", "w", "w.nqc"] := by
      decide +kernel
    rw [hplace] at hwrites
    refine ⟨d', hrun, hprogram, fun x hx => ?_⟩
    have hne : x ≠ ["outputs", "w", "w.nqc"] := by
      rintro rfl
      exact hx (by decide +kernel)
    exact (hwrites.other x hne).resolve_right fun hmade => hx hmade.2.1

end NqcBlocks
