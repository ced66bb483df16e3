import Mathlib.Logic.Relation
import NqcBlocks.Proofs.Actions

/-!
# The moves of a viewer

Most of a viewer is what it shows. What it is at **work** on is the rest (`Viewer.Work`): the session, the
disk, the phase and how far it has come, the workspace and the name of its program. Showing something
leaves the work alone (`Viewing.Shows`), and all that a viewer ever does to its work is a sequence of a few
moves (`Work.Moves`), each with the conditions under which it is made: loading a workspace in the first
phase, entering a phase, taking a step of one, writing the program, failing.
-/

namespace NqcBlocks

open Files Workspace

variable {v : Viewer} {w : Work} {k : Viewer → Viewer}

/-! ## Running a computation -/

namespace Viewing

variable {α β : Type}

def Yields (x : Viewing α) (v : Viewer) (Q : α → Viewer → Prop) : Prop :=
  ∀ a v', exec x v = (.ok a, v') → Q a v'

namespace Yields

variable {x : Viewing α} {f : α → Viewing β} {P : α → Viewer → Prop} {Q : β → Viewer → Prop}

theorem pure {a : α} (h : P a v) : Yields (pure a) v P := by
  intro a' v' hexec
  cases hexec
  exact h

theorem throw {e : ViewerError} : Yields (throw e : Viewing α) v P := by
  intro a' v' hexec
  cases hexec

theorem bind (hx : Yields x v P) (hf : ∀ a v', P a v' → Yields (f a) v' Q) : Yields (x >>= f) v Q := by
  intro b v'' h
  rw [exec_bind] at h
  rcases hexec : exec x v with ⟨e | a, v'⟩
  · rw [hexec] at h
    cases h
  · rw [hexec] at h
    exact hf a v' (hx a v' hexec) b v'' h

theorem mono {P' : α → Viewer → Prop} (hx : Yields x v P) (h : ∀ a v', P a v' → P' a v') :
    Yields x v P' := fun a v' hexec => h a v' (hx a v' hexec)

theorem get_bind {f : Viewer → Viewing β} (h : Yields (f v) v Q) : Yields (get >>= f) v Q := h

theorem set_bind {v' : Viewer} {f : PUnit → Viewing β} (h : Yields (f ()) v' Q) : Yields (set v' >>= f) v Q := h

theorem modify_bind {f : PUnit → Viewing β} (h : Yields (f ()) (k v) Q) : Yields (modify k >>= f) v Q := h

theorem modify {P : PUnit → Viewer → Prop} (h : P () (k v)) : Yields (modify k) v P := by
  intro a v' hexec
  cases hexec
  exact h

end Yields

end Viewing

namespace Viewer

open Viewing

variable {α β : Type}

/-! ## Work -/

/-- **What a viewer is at work on**: all but what it shows. -/
structure Work where
  config : Config
  disk : Disk
  session : Session
  phase : Phase
  completed : Bool
  failed : Bool
  running : Bool
  paused : Bool
  errorMessage : String
  workspace : Option Path
  fileName : String
  kept : Option Graph

def work (v : Viewer) : Work where
  config := v.config
  disk := v.disk
  session := v.session
  phase := v.phase
  completed := v.completed
  failed := v.failed
  running := v.running
  paused := v.timer.paused
  errorMessage := v.errorMessage
  workspace := v.workspace
  fileName := v.fileName
  kept := v.kept

namespace Work

def withRunning (w : Work) (running : Bool) : Work :=
  if w.running = running then w else { w with running, paused := !running }

def loaded (w : Work) (path : Path) (g : Graph) : Work :=
  { w with
    session := { w.session.reset with fileName := path.stem }.withGraph g
    workspace := some path
    fileName := w.config.programNameFor path
    kept := none }

def refused (w : Work) (path : Path) : Work :=
  { w with
    session := { w.session.reset with fileName := path.stem }
    kept := some (w.kept.getD w.session.graph) }

def entering (w : Work) (phase : Phase) : Work :=
  { w with phase, completed := false, failed := false, errorMessage := "" }.withRunning false

def ended (w : Work) : Work := { w with completed := true }.withRunning false

def outputDirectory (w : Work) : Path := w.config.outputRoot.child w.fileName

def outputFile (w : Work) : Path := w.outputDirectory.child (w.fileName ++ ".nqc")

/-- **The moves**: all that is ever done to the work of a viewer. -/
inductive Moves : Work → Work → Prop
  | runs {w : Work} (running : Bool) : w.completed = false → Moves w (w.withRunning running)
  | loads {w : Work} {path : Path} {g : Graph} : w.phase = .input →
      Workspace.ofFile w.disk path = .ok g → Moves w (w.loaded path g)
  | refuses {w : Work} {path : Path} {e : WorkspaceError} : w.phase = .input →
      Workspace.ofFile w.disk path = .error e → Moves w (w.refused path)
  | beginsValidation {w : Work} : w.phase = .input → w.workspace.isSome = true →
      Moves w ({ w with session := w.session.beginValidation }.entering .validation)
  | validates {w : Work} {s : Session} {r : ValidationReport} : w.phase = .validation →
      w.completed = false → w.session.tickValidation = (s, .ok (some r)) →
      Moves w { w with session := s }
  | endsValidation {w : Work} {s : Session} : w.phase = .validation → w.completed = false →
      w.session.tickValidation = (s, .ok none) → Moves w { w with session := s }.ended
  | beginsGeneration {w : Work} : w.phase = .validation → w.completed = true →
      Moves w ({ w with session := w.session.beginCode w.config.options }.entering .generation)
  | generates {w : Work} {s : Session} {r : CodeReport} : w.phase = .generation →
      w.completed = false → w.session.tickCode = (s, .ok (some r)) → Moves w { w with session := s }
  | writes {w : Work} {s : Session} {disk : Disk} : w.phase = .generation → w.completed = false →
      w.session.tickCode = (s, .ok none) →
      writeProgram w.disk w.outputDirectory w.outputFile s.outputCode = (disk, .ok ()) →
      Moves w { w with session := s, disk }.ended
  | fails {w : Work} {s : Session} {e : GenError} {message : String} : w.phase = .generation →
      w.completed = false → w.session.tickCode = (s, .error (.generation e)) →
      e.message? = some message →
      Moves w { w with session := s, errorMessage := message, failed := true }.ended
  | returns {w : Work} : w.failed = true → w.workspace = none → Moves w (w.entering .input)
  | reloads {w : Work} {path : Path} {g : Graph} : w.failed = true → w.workspace = some path →
      Workspace.ofFile w.disk path = .ok g → Moves w ((w.loaded path g).entering .input)
  | misses {w : Work} {path : Path} {e : WorkspaceError} : w.failed = true →
      w.workspace = some path → Workspace.ofFile w.disk path = .error e →
      Moves w ((w.refused path).entering .input)
  | reviews {w : Work} : w.phase = .generation → w.completed = true → w.failed = false →
      Moves w (w.entering .review)

/-- **A phase that is over has stopped the timer**, and only the generation of code fails. -/
structure Sane (w : Work) : Prop where
  paused : w.paused = !w.running
  ended : w.completed = true → w.running = false
  failed : w.failed = true → w.phase = .generation ∧ w.completed = true
  input : w.phase = .input → w.completed = false

/-! ### The moves keep to it -/

theorem withRunning_eq (h : w.paused = !w.running) (running : Bool) :
    w.withRunning running = { w with running, paused := !running } := by
  unfold withRunning
  split
  · next heq => rw [← heq, ← h]
  · rfl

theorem over_eq (h : w.paused = !w.running) :
    w.ended = { w with completed := true, running := false, paused := true } :=
  withRunning_eq (w := { w with completed := true }) h false

theorem sane_entering (h : w.paused = !w.running) (phase : Phase) : Sane (w.entering phase) := by
  unfold entering
  rw [withRunning_eq]
  · exact ⟨rfl, fun _ => rfl, fun h => (by cases h), fun _ => rfl⟩
  · exact h

theorem sane_over (h : w.paused = !w.running) (hphase : w.phase ≠ .input)
    (hfailed : w.failed = true → w.phase = .generation) : Sane w.ended := by
  rw [over_eq h]
  exact ⟨rfl, fun _ => rfl, fun h => ⟨hfailed h, rfl⟩, fun h => absurd h hphase⟩

theorem Sane.not_failed (hw : Sane w) (h : w.completed = false) : w.failed = false := by
  cases hfailed : w.failed with
  | false => rfl
  | true => exact absurd (hw.failed hfailed).2 (by rw [h]; decide)

theorem Moves.sane {w' : Work} (h : Moves w w') (hw : Sane w) : Sane w' := by
  cases h with
  | runs running hc =>
    rw [withRunning_eq hw.paused]
    exact ⟨rfl, fun h => absurd h (by rw [hc]; decide), hw.failed, hw.input⟩
  | loads | refuses | validates | generates => exact ⟨hw.paused, hw.ended, hw.failed, hw.input⟩
  | beginsValidation | beginsGeneration | returns | reloads | misses | reviews =>
    refine sane_entering ?_ _
    exact hw.paused
  | endsValidation hp =>
    refine sane_over hw.paused ?_ fun h => (hw.failed h).1
    exact hp ▸ Phase.noConfusion
  | writes hp | fails hp =>
    refine sane_over hw.paused ?_ fun _ => hp
    exact hp ▸ Phase.noConfusion

end Work

/-! ## Showing -/

def Shows (x : Viewing α) : Prop := ∀ v, (exec x v).2.work = v.work

theorem work_exec_bind {x : Viewing α} {f : α → Viewing β} (hx : (exec x v).2.work = w)
    (hf : ∀ a v', v'.work = w → (exec (f a) v').2.work = w) : (exec (x >>= f) v).2.work = w := by
  rw [exec_bind]
  rcases hexec : exec x v with ⟨e | a, v'⟩
  · rw [hexec] at hx
    exact hx
  · rw [hexec] at hx
    exact hf a v' hx

namespace Shows

variable {x : Viewing α} {f : α → Viewing β}

theorem pure (a : α) : Shows (pure a : Viewing α) := fun _ => rfl

theorem throw (e : ViewerError) : Shows (throw e : Viewing α) := fun _ => rfl

theorem bind (hx : Shows x) (hf : ∀ a, Shows (f a)) : Shows (x >>= f) :=
  fun v => work_exec_bind (hx v) fun a v' hv' => (hf a v').trans hv'

theorem get_bind {f : Viewer → Viewing β} (hf : ∀ v, Shows (f v)) : Shows (get >>= f) :=
  fun v => hf v v

theorem modify (h : ∀ v, (k v).work = v.work) : Shows (modify k) := h

theorem yields (hx : Shows x) (v : Viewer) : Yields x v fun _ v' => v'.work = v.work := by
  intro a v' hexec
  have hwork := hx v
  rwa [hexec] at hwork

end Shows

theorem shows_display (text : String) : Shows (display text) := by
  unfold display
  split
  · exact .throw _
  · exact .pure ()

theorem shows_post (text : String) (tone : Tone) : Shows (post text tone) := by
  refine Shows.bind (.modify ?_) fun _ => (shows_display text).bind fun _ => .modify ?_
  · exact fun _ => rfl
  · exact fun _ => rfl

theorem shows_refreshTitle (before : String) : Shows (refreshTitle before) := by
  refine .get_bind fun v => ?_
  dsimp only
  split
  · exact shows_display _
  · exact .pure ()

theorem work_updatePanel (v : Viewer) (side : Side) (f : Panel → Panel) : (v.updatePanel side f).work = v.work := by
  cases side <;> rfl

theorem shows_retitle (side : Side) (title : String) : Shows (retitle side title) := by
  refine .get_bind fun v => (Shows.modify fun v => work_updatePanel v side _).bind fun _ => ?_
  split
  · exact .pure ()
  · exact .throw _

theorem shows_ask (side : Side) (content : PanelContent) : Shows (ask side content) := by
  refine .get_bind fun v => (Shows.modify fun v => work_updatePanel v side _).bind fun _ => ?_
  split
  · exact .pure ()
  · exact .throw _

theorem shows_remark (message : String) : Shows (remark message) := by
  unfold remark
  split
  · exact .pure ()
  · exact shows_post _ _

theorem shows_toggleBrowser : Shows toggleBrowser := by
  refine .get_bind fun v => ?_
  split
  · exact .pure _
  · split
    · exact shows_ask _ _
    · refine (shows_ask _ _).bind fun _ => Shows.bind (.modify ?_) fun _ => shows_post _ _
      exact fun _ => rfl

/-! ## What each part of a viewer does -/

theorem work_withRunning (v : Viewer) (running : Bool) :
    (v.withRunning running).work = v.work.withRunning running := by
  unfold Viewer.withRunning Work.withRunning
  show _ = if v.running = running then _ else _
  split <;> rfl

theorem yields_load (path : Path) (v : Viewer) : Yields (load path) v fun done v' =>
    (done = true ∧ ∃ g, ofFile v.disk path = .ok g ∧ v'.work = v.work.loaded path g)
    ∨ (done = false ∧ ∃ e, ofFile v.disk path = .error e
      ∧ v'.work = v.work.refused path) := by
  unfold load Session.loadFile
  refine .get_bind ?_
  cases hfile : ofFile v.disk path with
  | error e =>
    refine .set_bind ?_
    cases e.message? with
    | none => exact .throw
    | some message =>
      refine ((shows_post _ _).yields _).bind fun _ v' hv' => .pure (.inr ⟨rfl, e, rfl, ?_⟩)
      rw [hv']
      rfl
  | ok g =>
    refine .set_bind (((shows_refreshTitle _).yields _).bind fun _ v' hv' => .modify_bind ?_)
    refine ((shows_post _ _).yields _).bind fun _ v'' hv'' => .pure (.inl ⟨rfl, g, rfl, ?_⟩)
    rw [hv'']
    show { v'.work with kept := none } = _
    rw [hv']
    rfl

theorem work_showPhase (phase : Phase) (v : Viewer) : (exec (showPhase phase) v).2.work = { v.work with phase } := by
  have hshows : Shows (do
      refreshTitle v.title
      retitle .left phase.leftTitle
      ask .left phase.left
      retitle .right phase.rightTitle
      ask .right phase.right
      post phase.greeting) :=
    (shows_refreshTitle _).bind fun _ => (shows_retitle _ _).bind fun _ =>
      (shows_ask _ _).bind fun _ => (shows_retitle _ _).bind fun _ => (shows_ask _ _).bind fun _ =>
        shows_post _ _
  unfold showPhase
  rw [exec_get_bind]
  dsimp only
  rw [exec_modify_bind]
  exact hshows _

theorem yields_showPhase (phase : Phase) (v : Viewer) :
    Yields (showPhase phase) v fun _ v' => v'.work = { v.work with phase } := by
  intro a v' hexec
  have hwork := work_showPhase phase v
  rwa [hexec] at hwork

theorem work_entering (v : Viewer) : ({ { v with completed := false, failed := false }.withRunning false with
      errorMessage := "" } : Viewer).work = v.work.entering v.phase := by
  show { ({ v with completed := false, failed := false }.withRunning false).work with
    errorMessage := "" } = _
  rw [work_withRunning]
  unfold Work.entering Work.withRunning work
  dsimp only
  split <;> rfl

theorem yields_enter {phase : Phase} {Q : Work → Prop}
    (h : ∀ v', v'.work = { v.work with phase } → Yields (prepare phase) v' fun _ v'' =>
      v''.phase = phase ∧ Q (v''.work.entering phase)) :
    Yields (enter phase) v fun _ v' => Q v'.work := by
  refine (yields_showPhase phase v).bind fun _ v' hv' => (h v' hv').bind fun _ v'' hv'' => .modify ?_
  rw [work_entering, hv''.1]
  exact hv''.2

theorem yields_enter_validation (v : Viewer) : Yields (enter .validation) v fun _ v' =>
    v'.work = { v.work with session := v.session.beginValidation }.entering .validation := by
  refine yields_enter (Q := fun w => w = _) fun v' hv' => .modify ⟨congrArg Work.phase hv', ?_⟩
  show { v'.work with session := v'.work.session.beginValidation }.entering .validation = _
  rw [hv']
  rfl

theorem yields_enter_generation (v : Viewer) : Yields (enter .generation) v fun _ v' =>
    v'.work = { v.work with session := v.session.beginCode v.config.options }.entering .generation := by
  refine yields_enter (Q := fun w => w = _) fun v' hv' => .modify ⟨congrArg Work.phase hv', ?_⟩
  show { v'.work with session := v'.work.session.beginCode v'.work.config.options }.entering .generation = _
  rw [hv']
  rfl

theorem yields_enter_review (v : Viewer) : Yields (enter .review) v fun _ v' =>
    v'.work = v.work.entering .review := by
  refine yields_enter (Q := fun w => w = _) fun v' hv' => ?_
  have hshows : Shows (prepare .review) := by
    refine .get_bind fun u => Shows.bind (.modify ?_) fun _ => ?_
    · exact fun _ => rfl
    · split
      · exact shows_post _ _
      · exact .pure ()
  refine (hshows.yields v').mono fun _ v'' hv'' => ⟨?_, ?_⟩
  · exact (congrArg Work.phase hv'').trans (congrArg Work.phase hv')
  · rw [hv'', hv']
    rfl

theorem yields_enter_input (h : v.failed = true) : Yields (enter .input) v fun _ v' => Work.Moves v.work v'.work := by
  refine yields_enter (Q := Work.Moves v.work) fun v' hv' => .get_bind ?_
  have hdisk : v'.disk = v.disk := congrArg Work.disk hv'
  have hphase : v'.phase = .input := congrArg Work.phase hv'
  have hworkspace : v'.workspace = v.workspace := congrArg Work.workspace hv'
  cases hpath : v'.workspace with
  | none =>
    refine .pure ⟨hphase, ?_⟩
    rw [hv']
    exact .returns h (hworkspace.symm.trans hpath)
  | some path =>
    refine ((yields_load path v').bind fun done v'' hv'' => .pure ?_)
    rw [hdisk, hv'] at hv''
    rcases hv'' with ⟨-, g, hfile, hwork⟩ | ⟨-, e, hfile, hwork⟩
    · refine ⟨congrArg Work.phase hwork, ?_⟩
      rw [hwork]
      exact .reloads h (hworkspace.symm.trans hpath) hfile
    · refine ⟨congrArg Work.phase hwork, ?_⟩
      rw [hwork]
      exact .misses h (hworkspace.symm.trans hpath) hfile

theorem yields_complete (completed : Bool) (h : v.completed = false) : Yields (complete completed) v fun _ v' =>
      v'.work = if completed = true then v.work.ended else v.work := by
  refine .get_bind ?_
  cases completed with
  | false =>
    rw [if_pos h]
    exact .pure rfl
  | true =>
    rw [if_neg (by rw [h]; decide)]
    refine .set_bind ?_
    rw [if_pos rfl]
    refine .modify_bind (.get_bind (((shows_post _ _).yields _).mono fun _ v' hv' => ?_))
    rw [hv', work_withRunning]
    rfl

/-! ### Steps -/

theorem yields_validationStep (v : Viewer) : Yields validationStep v fun done v' =>
    ∃ s, v'.work = { v.work with session := s }
      ∧ if done = true then v.session.tickValidation = (s, .ok none)
        else ∃ r, v.session.tickValidation = (s, .ok (some r)) := by
  refine .get_bind ?_
  rcases htick : v.session.tickValidation with ⟨s, e | _ | r⟩
  · exact .set_bind .throw
  · exact .set_bind (.pure ⟨s, rfl, rfl⟩)
  · refine .set_bind (.modify_bind (((shows_remark _).yields _).bind fun _ v' hv' => .pure ?_))
    exact ⟨s, hv', r, rfl⟩

theorem yields_tick_validation (hphase : v.phase = .validation) (hc : v.completed = false) :
    Yields (do complete (← validationStep)) v fun _ v' => Work.Moves v.work v'.work := by
  refine (yields_validationStep v).bind fun done v' hv' => ?_
  obtain ⟨s, hwork, htick⟩ := hv'
  have hc' : v'.completed = false := (congrArg Work.completed hwork).trans hc
  refine (yields_complete done hc').mono fun _ v'' hv'' => ?_
  rw [hv'', hwork]
  cases done with
  | true => exact .endsValidation hphase hc htick
  | false =>
    obtain ⟨r, htick⟩ := htick
    exact .validates hphase hc htick

theorem yields_save (v : Viewer) : Yields save v fun _ v' =>
    ∃ disk, writeProgram v.disk v.outputDirectory v.outputFile v.session.outputCode = (disk, .ok ())
      ∧ v'.work = { v.work with disk } := by
  refine .get_bind ?_
  rcases hwrite : writeProgram v.disk v.outputDirectory v.outputFile v.session.outputCode
    with ⟨disk, e | _⟩
  · exact .set_bind .throw
  · refine .set_bind (((shows_post _ _).yields _).mono fun _ v' hv' => ?_)
    exact ⟨disk, rfl, hv'⟩

theorem yields_failGeneration (e : SessionError) (v : Viewer) : Yields (failGeneration e) v
    fun done v' => done = true ∧ ∃ cause message, e = .generation cause
      ∧ cause.message? = some message
      ∧ v'.work = { v.work.withRunning false with errorMessage := message, failed := true } := by
  cases e with
  | generation cause =>
    unfold failGeneration
    dsimp only
    cases hmessage : cause.message? with
    | none => exact .throw
    | some message =>
      refine .modify_bind (.pure ⟨rfl, cause, message, rfl, hmessage, ?_⟩)
      rw [← work_withRunning]
      rfl
  | validationNotStarted | codeNotStarted | validation => exact .throw

theorem yields_tick_generation (hphase : v.phase = .generation) (hc : v.completed = false)
    (hf : v.failed = false) (hpaused : v.timer.paused = !v.running) :
    Yields (do complete (← generationStep)) v fun _ v' => Work.Moves v.work v'.work := by
  have hstep : Yields generationStep v fun done v' => v'.completed = false
      ∧ Work.Moves v.work (if done = true then v'.work.ended else v'.work) := by
    refine .get_bind ?_
    rw [if_neg (by rw [hf]; decide)]
    rcases htick : v.session.tickCode with ⟨s, e | _ | r⟩
    · refine .set_bind ((yields_failGeneration e _).mono fun done v' hv' => ?_)
      obtain ⟨rfl, cause, message, rfl, hmessage, hwork⟩ := hv'
      have hrunning := Work.withRunning_eq (w := { v with session := s }.work) hpaused false
      rw [hrunning] at hwork
      refine ⟨(congrArg Work.completed hwork).trans hc, ?_⟩
      have hended : v'.work.ended = { v.work with session := s, errorMessage := message, failed := true }.ended := by
        rw [hwork, Work.over_eq rfl, Work.over_eq hpaused]
        rfl
      rw [if_pos rfl, hended]
      exact .fails hphase hc htick hmessage
    · refine .set_bind ((yields_save _).bind fun _ v' hv' => .pure ?_)
      obtain ⟨disk, hwrite, hwork⟩ := hv'
      refine ⟨(congrArg Work.completed hwork).trans hc, ?_⟩
      rw [if_pos rfl, hwork]
      exact .writes hphase hc htick hwrite
    · refine .set_bind (.modify_bind (((shows_remark _).yields _).bind fun _ v' hv' => .pure ?_))
      refine ⟨(congrArg Work.completed hv').trans hc, ?_⟩
      rw [if_neg (by decide), hv']
      exact .generates hphase hc htick
  refine hstep.bind fun done v' hv' => (yields_complete done hv'.1).mono fun _ v'' hv'' => ?_
  rw [hv'']
  exact hv'.2

/-! ### Sequences of moves -/

/-- What some moves lead to. -/
abbrev Work.Reaches : Work → Work → Prop := Relation.ReflTransGen Work.Moves

theorem Work.Reaches.sane {w' : Work} (h : w.Reaches w') (hw : w.Sane) : w'.Sane := by
  induction h with
  | refl => exact hw
  | tail _ hmove ih => exact hmove.sane ih

theorem yields_tick (hv : v.work.Sane) (hc : v.completed = false) :
    Yields tick v fun _ v' => v.work.Reaches v'.work := by
  have hf : v.failed = false := hv.not_failed hc
  refine .get_bind ?_
  cases hphase : v.phase with
  | input | review => exact .pure .refl
  | validation => exact (yields_tick_validation hphase hc).mono fun _ _ h => .single h
  | generation =>
    exact (yields_tick_generation hphase hc hf hv.paused).mono fun _ _ h => .single h

theorem yields_tickWithin (fuel : Nat) : ∀ {v : Viewer}, v.work.Sane →
    Yields (tickWithin fuel) v fun _ v' => v.work.Reaches v'.work := by
  induction fuel with
  | zero => exact fun _ => .pure .refl
  | succ fuel ih =>
    intro v hv
    refine .get_bind ?_
    split
    · exact .pure .refl
    · next hgo =>
      have hc : v.completed = false := by
        cases hc : v.completed with
        | false => rfl
        | true => exact absurd (by rw [hc]; rfl) hgo
      refine (yields_tick hv hc).bind fun _ v' hv' => ?_
      exact (ih (hv'.sane hv)).mono fun _ _ h => hv'.trans h

theorem yields_completeStep (hv : v.work.Sane) (hstepped : v.phase.isStepped = true) :
    Yields completeStep v fun _ v' => v.work.Reaches v'.work := by
  refine .get_bind ?_
  split
  · next hf => exact (yields_enter_input hf).mono fun _ _ h => .single h
  · next hf =>
    have hf : v.failed = false := Bool.not_eq_true _ ▸ hf
    split
    · next hc =>
      cases hphase : v.phase with
      | input | review =>
        rw [hphase] at hstepped
        cases hstepped
      | validation =>
        refine (yields_enter_generation v).mono fun _ v' hv' => .single ?_
        rw [hv']
        exact .beginsGeneration hphase hc
      | generation =>
        refine (yields_enter_review v).mono fun _ v' hv' => .single ?_
        rw [hv']
        exact .reviews hphase hc hf
    · next hc =>
      have hmove : Work.Moves v.work (v.withRunning false).work := by
        rw [work_withRunning]
        exact .runs false (Bool.not_eq_true _ ▸ hc)
      exact .set_bind ((yields_tickWithin _ (hmove.sane hv)).mono fun _ _ h => .head hmove h)

/-! ## Actions -/

theorem yields_load_input (hphase : v.phase = .input) (path : Path) :
    Yields (load path) v fun _ v' => v.work.Reaches v'.work := by
  refine (yields_load path v).mono fun done v' hv' => .single ?_
  rcases hv' with ⟨-, g, hfile, hwork⟩ | ⟨-, e, hfile, hwork⟩
  · rw [hwork]
    exact .loads hphase hfile
  · rw [hwork]
    exact .refuses hphase hfile

theorem work_withInterval (hpaused : v.timer.paused = !v.running) (interval : Double) :
    (v.withInterval interval).work = v.work := by
  unfold Viewer.withInterval
  split
  · rfl
  · unfold work
    dsimp only
    rw [hpaused]

theorem yields_perform (hv : v.work.Sane) {a : Action} (hopen : v.allows a = true) :
    Yields (perform a) v fun _ v' => v.work.Reaches v'.work := by
  have hstay : ∀ {v' : Viewer}, v'.work = v.work → v.work.Reaches v'.work := fun h => h ▸ .refl
  cases a with
  | loadFile => exact (shows_toggleBrowser.yields v).mono fun _ _ h => hstay h
  | loadExample =>
    have hphase : v.phase = .input := of_decide_eq_true hopen
    refine .get_bind ?_
    split
    · exact ((shows_post _ _).yields v).mono fun _ _ h => hstay h
    · exact (yields_load_input hphase _).bind fun _ _ h => .pure h
  | startValidation =>
    obtain ⟨hphase, hworkspace⟩ := Bool.and_eq_true_iff.mp hopen
    refine (yields_enter_validation v).mono fun _ v' hv' => .single ?_
    rw [hv']
    exact .beginsValidation (of_decide_eq_true hphase) hworkspace
  | toggleAutoProgress =>
    have hc : v.completed = false := by
      simpa using (Bool.and_eq_true_iff.mp hopen).2
    refine .modify (.single ?_)
    rw [work_withRunning]
    exact .runs _ hc
  | increaseSpeed | decreaseSpeed => exact .modify (hstay (work_withInterval hv.paused _))
  | manualTick =>
    have hc : v.completed = false := by
      simpa using (Bool.and_eq_true_iff.mp hopen).2
    refine .get_bind ?_
    split
    · exact .pure .refl
    · exact yields_tick hv hc
  | completeStep => exact yields_completeStep hv hopen

theorem yields_act (name : String) (hv : v.work.Sane) : Yields (act name) v fun _ v' => v.work.Reaches v'.work := by
  refine .get_bind ?_
  split
  · next hopen =>
    unfold allowsNamed at hopen
    cases hname : Action.ofName? name with
    | none => exact .throw
    | some a =>
      rw [hname] at hopen
      exact (yields_perform hv hopen).bind fun _ _ h => .pure h
  · exact .pure .refl

theorem yields_selectItem (way : List Int) (v : Viewer) : Yields (selectItem way) v fun _ v' => v'.work = v.work := by
  refine .get_bind ?_
  cases itemAt? way v.blocks.root with
  | none => exact .throw
  | some item =>
    dsimp only
    cases item.block with
    | none => exact .pure rfl
    | some h =>
      dsimp only
      split
      · refine .set_bind ?_
        split
        · exact (shows_post _ _).yields _
        · exact .pure rfl
      · exact .pure rfl

theorem yields_selectBranch (way : List Int) (v : Viewer) :
    Yields (selectBranch way) v fun _ v' => v.work.Reaches v'.work := by
  refine .get_bind ?_
  cases v.browser with
  | none =>
    dsimp only
    split
    · exact .pure .refl
    · exact .throw
  | some root =>
    dsimp only
    cases branchAt? way root with
    | none => exact .throw
    | some branch =>
      dsimp only
      split
      · exact .pure .refl
      · next hinput =>
        have hphase : v.phase = .input := Decidable.byContradiction fun h => hinput (by simp [h])
        split
        · exact .set_bind (.pure .refl)
        · split
          · refine (yields_load_input hphase branch.path).bind fun done v' hv' => ?_
            split
            · refine ((shows_ask _ _).yields v').mono fun _ v'' hv'' => ?_
              rwa [hv'']
            · exact .pure hv'
          · exact .pure .refl

theorem yields_fire (hv : v.work.Sane) : Yields fire v fun _ v' => v.work.Reaches v'.work := by
  refine .get_bind ?_
  split
  · exact .pure .refl
  · next hpaused =>
    have hc : v.completed = false := by
      cases hc : v.completed with
      | false => rfl
      | true =>
        have hrunning := hv.ended hc
        have hsync := hv.paused
        rw [hrunning] at hsync
        exact absurd hsync hpaused
    exact (yields_tick hv hc).bind fun _ _ h => .pure h

/-! ## Events -/

theorem reaches_respond (e : Event) (hv : v.work.Sane) : Yields (respond e) v fun _ v' => v.work.Reaches v'.work := by
  cases e with
  | action name => exact (yields_act name hv).bind fun _ _ h => .pure h
  | branch way => exact yields_selectBranch way v
  | item way => exact (yields_selectItem way v).mono fun _ _ h => h ▸ .refl
  | timer => exact (yields_fire hv).bind fun _ _ h => .pure h

theorem reaches_respondAll (events : List Event) : ∀ {v : Viewer}, v.work.Sane →
    Yields (respondAll events) v fun _ v' => v.work.Reaches v'.work := by
  induction events with
  | nil => exact fun _ => .pure .refl
  | cons e events ih =>
    intro v hv
    refine (reaches_respond e hv).bind fun _ v' hv' => ?_
    exact (ih (hv'.sane hv)).mono fun _ _ h => hv'.trans h

theorem work_start (config : Config) (disk : Disk) : (start config disk).work = work { config, disk } := by
  show (exec (enter .input) { config, disk }).2.work = _
  refine work_exec_bind (work_showPhase .input _) fun _ v hv => work_exec_bind ?_ fun _ v' hv' => ?_
  · have hworkspace : v.workspace = none := congrArg Work.workspace hv
    rw [prepare, exec_get_bind, hworkspace]
    exact hv
  · show ({ { v' with completed := false, failed := false }.withRunning false with
      errorMessage := "" } : Viewer).work = _
    rw [work_entering, hv', show v'.phase = .input from congrArg Work.phase hv']
    rfl

theorem sane_start (config : Config) (disk : Disk) : (start config disk).work.Sane := by
  rw [work_start]
  exact ⟨rfl, fun h => (by cases h), fun h => (by cases h), fun _ => rfl⟩

end Viewer

end NqcBlocks
