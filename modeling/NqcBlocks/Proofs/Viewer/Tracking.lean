import NqcBlocks.Proofs.Output.Effect
import NqcBlocks.Proofs.Session.Progress
import NqcBlocks.Proofs.Viewer.Moves

/-!
# What a viewer comes to

A viewer takes a workspace through its phases by a timer, by hand, in one go or in any mixture of these, with
failures and further attempts. However it gets there, what it has come to is fixed by the graph that it set
out with (`Work.Source`): the workspace on the disk, or no blocks at all once a workspace could not be loaded.
In each phase `Work.Stage` says how far along the compilation of that graph the viewer is, and every move
keeps to it (`Work.Tracks.moves`), so that it holds in all that a viewer does (`tracks_of_run`). The disk is
touched once, at the very end.
-/

namespace NqcBlocks.Viewer

open Files Viewing

variable {d : Disk} {w w' : Work} {config : Config} {g : Graph}

namespace Work

/-- **What a viewer set out with**: the graph of the workspace that was loaded last, under the name of its
program; if a workspace was refused since, no blocks. -/
structure Source (d : Disk) (g : Graph) (w : Work) : Prop where
  forest : g.Forest
  named : ∀ path, w.workspace = some path → w.fileName = w.config.programNameFor path
  loaded : w.kept = none → ∀ path, w.workspace = some path → Workspace.ofFile d path = .ok g
  refused : w.kept ≠ none → g = .empty

def Stage (d : Disk) (g : Graph) (w : Work) : Prop :=
  let whole := Compilation.ofGraph g w.config.options
  match w.phase, w.completed, w.failed with
  | .input, _, _ => w.disk = d ∧ w.session.graph = g
  | .validation, false, _ => w.disk = d ∧ w.session.Validating g
  | .validation, true, _ => w.disk = d ∧ w.session.Validated g
  | .generation, false, _ => w.disk = d ∧ w.session.Generating g.validate.1 w.config.options
      (Session.validationWarnings g.review.2)
  | .generation, true, true => w.disk = d ∧ w.session.graph = g.validate.1
      ∧ ∃ e, whole.error = some e ∧ e.message? = some w.errorMessage
  | .generation, true, false => whole.error = none ∧ w.session.warnings = whole.warnings
      ∧ writeProgram d w.outputDirectory w.outputFile whole.code = (w.disk, .ok ())
  | .review, _, _ => True

/-- **A viewer keeps track of the workspace** it set out with, on a disk that it found as `d`. -/
structure Tracks (config : Config) (d : Disk) (w : Work) : Prop where
  config_eq : w.config = config
  begun : w.phase ≠ .input → w.workspace.isSome = true
  stage : ∃ g, Source d g w ∧ Stage d g w

theorem source_loaded {path : Path} (hfile : Workspace.ofFile d path = .ok g) : Source d g (w.loaded path g) where
  forest := (loaded_of_ofFile hfile).1
  named := by
    rintro path' ⟨rfl⟩
    rfl
  loaded := by
    rintro - path' ⟨rfl⟩
    exact hfile
  refused := fun h => absurd rfl h

theorem Source.refuse (h : Source d g w) (path : Path) : Source d .empty (w.refused path) where
  forest := Graph.Forest.empty
  named := h.named
  loaded := fun h => by cases h
  refused := fun _ => rfl

theorem graph_refused (hforest : w.session.graph.Forest) (path : Path) : (w.refused path).session.graph = .empty := by
  show ({ catalog := w.session.graph.catalog } : Graph) = _
  rw [hforest.builtin]
  rfl

theorem run_validated (g : Graph) (options : Options) : Generation.run g.validate.1 options
    = ((Compilation.ofGraph g options).reports, (Compilation.ofGraph g options).error) :=
  Generation.run_ofGraph g options

theorem Tracks.withRunning (h : Tracks config d w) (running : Bool) : Tracks config d (w.withRunning running) := by
  unfold Work.withRunning
  split
  · exact h
  · obtain ⟨g, hsource, hstage⟩ := h.stage
    exact ⟨h.config_eq, h.begun, g, { hsource with }, hstage⟩

theorem Tracks.ended (h : Tracks config d { w with completed := true }) :
    Tracks config d w.ended := h.withRunning false

theorem Tracks.entering {phase : Phase}
    (h : Tracks config d { w with phase, completed := false, failed := false, errorMessage := "" }) :
    Tracks config d (w.entering phase) := h.withRunning false

theorem Tracks.moves (h : Tracks config d w) (hsane : w.Sane) (hmove : Moves w w') : Tracks config d w' := by
  obtain ⟨hconfig, hbegun, g, hsource, hstage⟩ := h
  cases hmove with
  | runs running hc => exact Tracks.withRunning ⟨hconfig, hbegun, g, hsource, hstage⟩ running
  | @loads path g' hp hfile =>
    simp only [Stage, hp] at hstage
    rw [hstage.1] at hfile
    refine ⟨hconfig, fun _ => rfl, g', source_loaded hfile, ?_⟩
    simp only [Stage, loaded, hp]
    exact ⟨hstage.1, rfl⟩
  | @refuses path e hp hfile =>
    simp only [Stage, hp] at hstage
    have hforest : w.session.graph.Forest := hstage.2 ▸ hsource.forest
    refine ⟨hconfig, hbegun, .empty, hsource.refuse path, ?_⟩
    simp only [Stage, show (w.refused path).phase = .input from hp]
    exact ⟨hstage.1, graph_refused hforest path⟩
  | beginsValidation hp hworkspace =>
    simp only [Stage, hp] at hstage
    refine .entering ⟨hconfig, fun _ => hworkspace, g, { hsource with }, hstage.1, ?_⟩
    exact Session.validating_begin hsource.forest hstage.2
  | validates hp hc htick =>
    simp only [Stage, hp, hc] at hstage
    refine ⟨hconfig, hbegun, g, { hsource with }, ?_⟩
    simp only [Stage, hp, hc]
    rcases hstage.2.tick htick with ⟨r, -, hs⟩ | ⟨h, -⟩
    · exact ⟨hstage.1, hs⟩
    · cases h
  | endsValidation hp hc htick =>
    simp only [Stage, hp, hc] at hstage
    refine .ended ⟨hconfig, hbegun, g, { hsource with }, ?_⟩
    simp only [Stage, hp]
    rcases hstage.2.tick htick with ⟨r, h, -⟩ | ⟨-, hs⟩
    · cases h
    · exact ⟨hstage.1, hs⟩
  | beginsGeneration hp hc =>
    simp only [Stage, hp, hc] at hstage
    refine .entering ⟨hconfig, fun _ => hbegun (hp ▸ Phase.noConfusion), g,
      { hsource with }, hstage.1, ?_⟩
    rw [← hstage.2.warnings]
    exact Session.generating_begin hstage.2.graph _
  | generates hp hc htick =>
    simp only [Stage, hp, hc] at hstage
    refine ⟨hconfig, hbegun, g, { hsource with }, ?_⟩
    simp only [Stage, hp, hc]
    rcases hstage.2.tick hsource.forest.validate.forest.grounded htick with ⟨r, -, hs⟩ | ⟨h, -⟩ | ⟨e, h, -⟩
    · exact ⟨hstage.1, hs⟩
    · cases h
    · cases h
  | writes hp hc htick hwrite =>
    have hf := hsane.not_failed hc
    simp only [Stage, hp, hc] at hstage
    refine .ended ⟨hconfig, hbegun, g, { hsource with }, ?_⟩
    simp only [Stage, hp, hf]
    rcases hstage.2.tick hsource.forest.validate.forest.grounded htick with
      ⟨r, h, -⟩ | ⟨-, reports, hrun, hcode, hwarnings⟩ | ⟨e, h, -⟩
    · cases h
    · rw [run_validated] at hrun
      obtain ⟨hreports, herror⟩ := Prod.mk.inj hrun
      refine ⟨herror, ?_, ?_⟩
      · rw [hwarnings, ← hreports]
        rfl
      · rw [hcode, ← hreports, hstage.1] at hwrite
        exact hwrite
    · cases h
  | fails hp hc htick hmessage =>
    simp only [Stage, hp, hc] at hstage
    refine .ended ⟨hconfig, hbegun, g, { hsource with }, ?_⟩
    simp only [Stage, hp]
    rcases hstage.2.tick hsource.forest.validate.forest.grounded htick with
      ⟨r, h, -⟩ | ⟨h, -⟩ | ⟨e, h, hgraph, herror⟩
    · cases h
    · cases h
    · cases h
      rw [run_validated] at herror
      exact ⟨hstage.1, hgraph, _, herror, hmessage⟩
  | returns hf hworkspace =>
    -- there is no program without a workspace
    have hsome := hbegun ((hsane.failed hf).1 ▸ Phase.noConfusion)
    rw [hworkspace] at hsome
    cases hsome
  | @reloads path g' hf hpath hfile =>
    obtain ⟨hp, hc⟩ := hsane.failed hf
    simp only [Stage, hp, hc, hf] at hstage
    rw [hstage.1] at hfile
    have hsource' : Source d g' (w.loaded path g') := source_loaded hfile
    exact .entering ⟨hconfig, fun h => absurd rfl h, g', { hsource' with }, hstage.1, rfl⟩
  | @misses path e hf hpath hfile =>
    obtain ⟨hp, hc⟩ := hsane.failed hf
    simp only [Stage, hp, hc, hf] at hstage
    have hforest : w.session.graph.Forest := hstage.2.1 ▸ hsource.forest.validate.forest
    exact .entering ⟨hconfig, fun h => absurd rfl h, .empty,
      { hsource.refuse path with }, hstage.1, graph_refused hforest path⟩
  | reviews hp hc hf =>
    exact .entering ⟨hconfig, fun _ => hbegun (hp ▸ Phase.noConfusion), g, { hsource with }, trivial⟩

theorem Tracks.reaches (h : Tracks config d w) (hsane : w.Sane) (hreaches : w.Reaches w') : Tracks config d w' := by
  induction hreaches with
  | refl => exact h
  | tail hbefore hmove ih => exact ih.moves (Reaches.sane hbefore hsane) hmove

end Work

theorem tracks_start (config : Config) (d : Disk) : (start config d).work.Tracks config d := by
  rw [work_start]
  refine ⟨rfl, fun h => absurd rfl h, .empty, ⟨Graph.Forest.empty, ?_, ?_, fun _ => rfl⟩, rfl, rfl⟩
  · intro path hpath
    cases hpath
  · intro hkept path hpath
    cases hpath

theorem tracks_of_run {events : List Event} {v : Viewer}
    (hrun : (respondAll events).run.run (start config d) = (.ok (), v)) :
    v.work.Sane ∧ v.work.Tracks config d := by
  have hreaches := reaches_respondAll events (sane_start config d) () v hrun
  exact ⟨hreaches.sane (sane_start config d), (tracks_start config d).reaches (sane_start config d) hreaches⟩

end NqcBlocks.Viewer
