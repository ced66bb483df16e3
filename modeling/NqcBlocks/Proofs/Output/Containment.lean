import NqcBlocks.CommandLine
import NqcBlocks.Proofs.Output.Effect

/-!
# Where programs are written

A program is meant for a directory of its own under the output root, and the directory has the name of the
program. The name has been cleaned, so it is one part of a path, but two of such parts name no entry of a
directory: `.` is the directory itself and `..` the one above. `Placed` says where the program of a name is,
whatever the name; that is in a directory right below the root exactly if the name is none of the two.
-/

namespace NqcBlocks

open Files List Path

variable {l : Location} {d : Disk}

namespace Files

/-- **The place of a program** under a root: a file named after it, in the directory its name leads to. -/
structure Placed (root : Location) (name : String) (l : Location) : Prop where
  file : l = l.dropLast ++ [name ++ ".nqc"]
  directory : l.dropLast = if name = "." then root else if name = ".." then root.dropLast else root ++ [name]
  below_iff : (∃ child, l.dropLast = root ++ [child]) ↔ name ≠ "." ∧ name ≠ ".."

theorem ne_append_singleton_of_length_le {root : Location} (h : l.length ≤ root.length)
    (child : String) : l ≠ root ++ [child] := by
  rintro rfl
  rw [length_append, length_singleton] at h
  omega

theorem placed_resolve (here : Location) (root : Path) {name : String} (hslash : '/' ∉ name.toList)
    (hne : name ≠ "") :
    Placed (root.resolve here) name (((root.child name).child (name ++ ".nqc")).resolve here) := by
  have hlength : ∀ s : String, (name ++ ".nqc") = s → 4 ≤ s.length := by
    rintro s rfl
    rw [String.length_append]
    exact Nat.le_add_left 4 _
  have hfile : ((root.child name).child (name ++ ".nqc")).resolve here
      = (root.child name).resolve here ++ [name ++ ".nqc"] := by
    rw [resolve_child_name, if_neg, if_neg]
    · exact fun h => absurd (hlength _ h) (by decide)
    · exact fun h => absurd (hlength _ h) (by decide)
    · rw [String.toList_append, mem_append]
      exact fun h => h.elim hslash (by decide)
    · exact fun h => absurd (hlength _ h) (by decide)
  have hdirectory := resolve_child_name here root hslash hne
  rw [hfile]
  refine ⟨by rw [dropLast_concat], by rw [dropLast_concat, hdirectory], ?_⟩
  rw [dropLast_concat, hdirectory]
  by_cases hdot : name = "."
  · rw [if_pos hdot]
    exact ⟨fun ⟨child, h⟩ => absurd h (ne_append_singleton_of_length_le (Nat.le_refl _) child),
      fun h => absurd hdot h.1⟩
  · rw [if_neg hdot]
    by_cases hup : name = ".."
    · rw [if_pos hup]
      refine ⟨fun ⟨child, h⟩ => absurd h (ne_append_singleton_of_length_le ?_ child), fun h => absurd hup h.2⟩
      rw [length_dropLast]
      exact Nat.sub_le _ _
    · rw [if_neg hup]
      exact ⟨fun _ => ⟨hdot, hup⟩, fun _ => ⟨name, rfl⟩⟩

def Disk.NewFile (d d' : Disk) (l : Location) : Prop :=
  ∃ content, d'.entry? l = some (.file content) ∧ d.entry? l ≠ some (.file content)

theorem Disk.not_newFile_self (d : Disk) (l : Location) : ¬d.NewFile d l :=
  fun ⟨_, hnew, hold⟩ => hold hnew

theorem Disk.OnlyMakes.not_newFile {d' : Disk} {places : List Location} (h : OnlyMakes d d' places)
    (l : Location) : ¬d.NewFile d' l := by
  rintro ⟨content, hnew, hold⟩
  rcases h.entry l with hkept | ⟨-, -, hmade⟩
  · exact hold (hkept ▸ hnew)
  · rw [hmade] at hnew
    cases hnew

theorem Disk.Writes.eq_of_newFile {d' : Disk} {places : List Location} {x : Location}
    {text : String} (h : d.Writes d' places l text) (hnew : d.NewFile d' x) : x = l := by
  obtain ⟨content, hnew, hold⟩ := hnew
  by_contra hne
  rcases h.other x hne with hkept | ⟨-, -, hmade⟩
  · exact hold (hkept ▸ hnew)
  · rw [hmade] at hnew
    cases hnew

end Files

def Job.WritesTo (j : Job) (d : Disk) (l : Location) : Prop :=
  (∃ path message, (j.run d).2 = .ok (.written path message) ∧ l = path.resolve d.cwd)
  ∨ d.NewFile (j.run d).1 l

theorem Job.eq_resolve_of_writesTo {j : Job} (h : j.WritesTo d l) : l = j.file.resolve d.cwd := by
  rcases j.stopped_or_writes d with ⟨r, hcase, hstopped⟩ | ⟨g, -, -, d', r, hwrite, hcase⟩
  · rw [WritesTo, hcase] at h
    rcases h with ⟨path, message, hout, -⟩ | hnew
    · exact absurd hout (hstopped path message)
    · exact absurd hnew (d.not_newFile_self l)
  · have hwritten := writeProgram_cases d j.directory j.file (Compilation.ofGraph g j.options).code
    rw [hwrite] at hwritten
    rcases h with ⟨path, message, hout, rfl⟩ | hnew
    · rcases hcase with ⟨cause, -, hcase⟩ | ⟨-, hcase⟩
      · rw [hcase] at hout
        cases hout
      · rw [hcase] at hout
        rw [(Outcome.written.inj (Except.ok.inj hout)).1]
    · have hdisk : (j.run d).1 = d' := by
        rcases hcase with ⟨cause, -, hcase⟩ | ⟨-, hcase⟩ <;> rw [hcase]
      rw [hdisk] at hnew
      rcases hwritten with ⟨-, -, hmakes⟩ | ⟨text, hwrites, -⟩
      · exact absurd hnew (hmakes.not_newFile l)
      · exact hwrites.eq_of_newFile hnew

theorem Job.placed_of_writesTo {j : Job} (h : j.WritesTo d l) : Placed (j.outputRoot.resolve d.cwd) j.name l := by
  obtain ⟨hslash, hne⟩ : '/' ∉ j.name.toList ∧ j.name ≠ "" := cleanFileName_spec _
  rw [eq_resolve_of_writesTo h]
  exact placed_resolve d.cwd j.outputRoot hslash hne

theorem CommandLine.compile_disk (d : Disk) (workspace : String) (config : Option String) :
    (compile d workspace config).1 = d
    ∨ ∃ input c, workspacePath? workspace = some input ∧ Config.load d (config.map ofString) = .ok c
      ∧ (compile d workspace config).1 = (Job.run { input, outputRoot := c.outputRoot, config := some c } d).1 := by
  unfold compile
  cases hinput : workspacePath? workspace with
  | none => exact .inl rfl
  | some input =>
    cases hconfig : Config.load d (config.map ofString) with
    | error e => exact .inl rfl
    | ok c =>
      refine .inr ⟨input, c, rfl, rfl, ?_⟩
      dsimp only
      rcases Job.run { input, outputRoot := c.outputRoot, config := some c } d with ⟨d', _ | _ | _⟩ <;> rfl

/-- **Where a program is written.** Whatever the workspace, the name of the program, the output root and the
configuration: a run writes to no place but that of its program under the output root, and a command to no
place but that of the program under the configured root. The directory of that place is right below the root
exactly if the name is not one of `.` and `..`: the program `.` is written into the root itself, and `..` into
the directory above. -/
theorem placed_of_written (d : Disk) (l : Location) :
    (∀ j : Job, j.WritesTo d l → Placed (j.outputRoot.resolve d.cwd) j.name l)
    ∧ ∀ workspace config, d.NewFile (CommandLine.compile d workspace config).1 l →
        ∃ input c, CommandLine.workspacePath? workspace = some input
          ∧ Config.load d (config.map Path.ofString) = .ok c
          ∧ Placed (c.outputRoot.resolve d.cwd) (cleanFileName (c.programNameFor input)) l := by
  refine ⟨fun j h => j.placed_of_writesTo h, fun workspace config hnew => ?_⟩
  rcases CommandLine.compile_disk d workspace config with hdisk | ⟨input, c, hinput, hconfig, hdisk⟩
  · rw [hdisk] at hnew
    exact absurd hnew (Disk.not_newFile_self d l)
  · rw [hdisk] at hnew
    exact ⟨input, c, hinput, hconfig, Job.placed_of_writesTo (.inr hnew)⟩

def robotJob : { j : Job // j.name = "..robot" } :=
  ⟨{ input := Path.ofString "w.json", programName := some " ../robot " }, by decide +kernel⟩

/-- A name that keeps its program below the root, with characters that are dropped from it. -/
theorem placed_of_written_robot :
    let d : Disk := { entries := [(["w.json"], .file (.text "\x7b\x7d"))] }
    let j : Job := { input := Path.ofString "w.json", programName := some " ../robot " }
    j.WritesTo d ["outputs", "..robot", "..robot.nqc"]
      ∧ Placed ["outputs"] "..robot" ["outputs", "..robot", "..robot.nqc"] := by
  intro d j
  have hwrites : j.WritesTo d ["outputs", "..robot", "..robot.nqc"] := by
    refine .inr ⟨.text "task main()\n\x7b\n\x7d\n", ?_, ?_⟩ <;> decide +kernel
  have hplaced := (placed_of_written d _).1 j hwrites
  have hname : j.name = "..robot" := robotJob.2
  have hroot : j.outputRoot.resolve d.cwd = ["outputs"] := by decide +kernel
  rw [hname, hroot] at hplaced
  exact ⟨hwrites, hplaced⟩

/-- **A program can be written outside its root**: with the name `..` it is written next to the root, be it
asked for or configured, and with the name `.` into the root, where it has no directory of its own. -/
theorem written_outside_root :
    let config := "\x7b\"project_name\": \"..\"\x7d"
    let d : Disk := { entries := [(["w.json"], .file (.text "\x7b\x7d")), (["c.json"], .file (.text config))] }
    let named (name : String) : Job := { input := Path.ofString "w.json", programName := some name }
    (named "..").outputRoot.resolve d.cwd = ["outputs"] ∧ (named "..").WritesTo d ["...nqc"]
      ∧ (named ".").WritesTo d ["outputs", "..nqc"]
      ∧ d.NewFile (CommandLine.compile d "w" (some "c.json")).1 ["...nqc"] := by
  intro config d named
  refine ⟨by decide +kernel, .inr ⟨.text "task main()\n\x7b\n\x7d\n", ?_, ?_⟩,
    .inr ⟨.text "task main()\n\x7b\n\x7d\n", ?_, ?_⟩, .text "task main()\n\x7b\n\x7d\n", ?_, ?_⟩ <;>
  decide +kernel

end NqcBlocks
