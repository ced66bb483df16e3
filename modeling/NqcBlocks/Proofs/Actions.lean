import NqcBlocks.Viewer.Action

/-!
# Answering events

A viewer answers one event after the other, and what it comes to in the end is what the later events lead to from
where the earlier ones have led (`exec_respondAll_append`). A sample disk, with a workspace that can be loaded and
a file that cannot, shows where it comes to from one and from the other.
-/

namespace NqcBlocks

open Files Workspace

namespace Viewing

variable {α β : Type}

def exec (x : Viewing α) (v : Viewer) : Except ViewerError α × Viewer := x.run.run v

theorem exec_bind (x : Viewing α) (f : α → Viewing β) (v : Viewer) : exec (x >>= f) v = match exec x v with
    | (.ok a, v') => exec (f a) v'
    | (.error e, v') => (.error e, v') := by
  unfold exec
  rw [ExceptT.run_bind, StateT.run_bind]
  rcases StateT.run (ExceptT.run x) v with ⟨r, v'⟩
  cases r <;> rfl

theorem exec_get_bind (f : Viewer → Viewing β) (v : Viewer) : exec (get >>= f) v = exec (f v) v := rfl

theorem exec_set_bind (v v' : Viewer) (f : PUnit → Viewing β) : exec (set v' >>= f) v = exec (f ()) v' :=
  rfl

theorem exec_modify_bind (k : Viewer → Viewer) (f : PUnit → Viewing β) (v : Viewer) :
    exec (modify k >>= f) v = exec (f ()) (k v) := rfl

end Viewing

namespace Viewer

open Viewing

/-! ## Events -/

/-- **What a viewer answers to.** -/
inductive Event where
  | action (name : String)
  | branch (way : List Int)
  | item (way : List Int)
  | timer
  deriving DecidableEq, Repr

def respond : Event → Viewing Unit
  | .action name => discard (act name)
  | .branch way => selectBranch way
  | .item way => selectItem way
  | .timer => discard fire

def respondAll (events : List Event) : Viewing Unit := events.forM respond

theorem exec_respondAll_append (earlier later : List Event) {v v' : Viewer}
    (h : (respondAll earlier).run.run v = (.ok (), v')) :
    (respondAll (earlier ++ later)).run.run v = (respondAll later).run.run v' := by
  show (forM (earlier ++ later) respond).run.run v = _
  rw [List.forM_append]
  show exec (respondAll earlier >>= fun _ => respondAll later) v = _
  rw [exec_bind, show exec (respondAll earlier) v = _ from h]
  rfl

/-! ## A sample -/

def sampleDisk : Disk :=
  let off := "\x7b\"type\":\"motor_off\"\x7d"
  let task := "\x7b\"type\":\"main_task\",\"inputs\":\x7b\"STATEMENTS\":\x7b\"block\":" ++ off ++ "\x7d\x7d\x7d"
  { entries := [(["examples"], .directory), (["examples", "workspaces"], .directory),
      (["examples", "workspaces", "line_follower.json"],
        .file (.text ("\x7b\"blocks\":[" ++ task ++ "]\x7d"))),
      (["broken.json"], .file (.text "\x7b"))] }

def sampleFinish : List Event :=
  [.action "start_validation", .action "complete_step", .action "complete_step", .action "complete_step"]

def sampleLoaded : Except ViewerError Unit × Viewer :=
  (respondAll [.action "load_example"]).run.run (start {} sampleDisk)

def sampleRefused : Except ViewerError Bool × Viewer :=
  (load (Path.ofString "broken.json")).run.run sampleLoaded.2

structure Glance where
  sound : Bool
  phase : Phase
  completed : Bool
  failed : Bool
  refused : Bool
  workspace : Option Path
  program : Option Entry
  deriving DecidableEq

def glance {α : Type} (r : Except ViewerError α × Viewer) : Glance where
  sound := r.1.toOption.isSome
  phase := r.2.phase
  completed := r.2.completed
  failed := r.2.failed
  refused := r.2.kept.isSome
  workspace := r.2.workspace
  program := r.2.disk.entry? ["outputs", "line_follower", "line_follower.nqc"]

theorem sample_evaluated :
    (glance sampleLoaded = ⟨true, .input, false, false, false, some exampleWorkspace, none⟩
      ∧ (ofFile sampleLoaded.2.disk (Path.ofString "broken.json")).toOption.isNone = true
      ∧ glance ((respondAll sampleFinish).run.run sampleLoaded.2)
        = ⟨true, .generation, true, false, false, some exampleWorkspace,
          some (.file (.text "task main()\n\x7b\n  Off(OUT_A);\n\x7d\n"))⟩)
    ∧ glance sampleRefused = ⟨true, .input, false, false, true, some exampleWorkspace, none⟩
      ∧ glance ((respondAll sampleFinish).run.run sampleRefused.2)
        = ⟨true, .generation, true, false, true, some exampleWorkspace,
          some (.file (.text "task main()\n\x7b\n\x7d\n"))⟩ := by
  -- one evaluation before the file is refused and one after it: each has much in common
  constructor <;> decide +kernel

theorem of_glance {α : Type} {r : Except ViewerError α × Viewer} {x : Glance} (h : glance r = x)
    (hsound : x.sound = true) :
    (∃ a, r = (.ok a, r.2)) ∧ r.2.phase = x.phase ∧ r.2.completed = x.completed ∧ r.2.failed = x.failed
      ∧ r.2.kept.isSome = x.refused ∧ r.2.workspace = x.workspace
      ∧ r.2.disk.entry? ["outputs", "line_follower", "line_follower.nqc"] = x.program := by
  subst h
  rcases r with ⟨_ | a, v⟩
  · cases hsound
  · exact ⟨⟨a, rfl⟩, rfl, rfl, rfl, rfl, rfl, rfl⟩

end Viewer

end NqcBlocks
