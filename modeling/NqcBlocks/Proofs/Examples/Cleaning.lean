import NqcBlocks.Examples.Clean
import NqcBlocks.Proofs.Files.Disk
import NqcBlocks.Proofs.Text.Rows

/-!
# Cleaning stays below the outputs

The outputs of a program are removed with all that is in their directory, so it matters which directory that
is. The name of the program may lead anywhere, by steps upwards or from the root. In a tree without links the
place it leads to is known from the names alone, and looking there finds what is at the place
(`Disk.toOption_find`). Hence the outputs are refused exactly if the place is not strictly below the directory
of all outputs, and otherwise all that goes is what is at the place or below it (`cleanOutputs_exact`).
-/

namespace NqcBlocks

open Files List Path

variable {d : Disk} {l : Location}

/-! ## Places in a tree -/

namespace Files.Disk

def IsName (part : String) : Prop :=
  Path.isStep part = true ∧ part ≠ ".." ∧ '/' ∉ part.toList ∧ isTooLong part = false

instance (part : String) : Decidable (IsName part) :=
  inferInstanceAs (Decidable (_ ∧ _ ∧ _ ∧ _))

theorem IsName.step {part : String} (h : IsName part) (here : Location) : step here part = here ++ [part] :=
  if_neg (by simpa using h.2.1)

/-- **A tree of directories.** What is anywhere is in a directory, under a name that a directory can hold, and
there is a path to ask for it; the reader stands in one of the directories. -/
structure IsTree (d : Disk) : Prop where
  inDirectory : ∀ l part, (d.entry? (l ++ [part])).isSome → d.entry? l = some .directory
  named : ∀ l, (d.entry? l).isSome → ∀ part ∈ l, IsName part
  askable : ∀ l, (d.entry? l).isSome → pathFault? (Path.ofLocation l) = none
  standing : d.entry? d.cwd = some .directory

theorem isTree_of_entries (h : ∀ e ∈ d.entries, d.entry? e.1.dropLast = some .directory
      ∧ (∀ part ∈ e.1, IsName part) ∧ pathFault? (ofLocation e.1) = none)
    (hcwd : d.entry? d.cwd = some .directory) : d.IsTree := by
  have hlisted : ∀ l, (d.entry? l).isSome → l = [] ∨ ∃ e ∈ d.entries, e.1 = l := by
    intro l hl
    unfold entry? at hl
    split at hl
    · next hempty => exact .inl (List.isEmpty_iff.mp hempty)
    · obtain ⟨e, he⟩ := Option.isSome_iff_exists.mp hl
      obtain ⟨before, after, hentries, -⟩ := List.lookup_eq_some_iff.mp he
      exact .inr ⟨(l, e), by rw [hentries]; simp, rfl⟩
  refine ⟨fun l part hsome => ?_, fun l hsome => ?_, fun l hsome => ?_, hcwd⟩
  · rcases hlisted _ hsome with hempty | ⟨e, he, heq⟩
    · cases append_eq_nil_iff.mp hempty |>.2
    · have habove := (h e he).1
      rwa [heq, dropLast_concat] at habove
  · rcases hlisted l hsome with rfl | ⟨e, he, rfl⟩
    · simp
    · exact (h e he).2.1
  · rcases hlisted l hsome with rfl | ⟨e, he, rfl⟩
    · decide
    · exact (h e he).2.2

variable {steps : List String} {e : Entry} {here : Location} {found : Entry}

theorem IsTree.directory_of_append (hd : d.IsTree) (hne : steps ≠ [])
    (h : (d.entry? (l ++ steps)).isSome) : d.entry? l = some .directory := by
  induction steps generalizing l with
  | nil => exact absurd rfl hne
  | cons part rest ih =>
    rw [append_cons] at h
    by_cases hrest : rest = []
    · rw [hrest, append_nil] at h
      exact hd.inDirectory l part h
    · exact hd.inDirectory l part (by rw [ih hrest h]; rfl)

theorem IsTree.walk_of_entry (hd : d.IsTree) (steps : List String)
    (hfound : d.entry? here = some found) (h : d.entry? (here ++ steps) = some e) :
    d.walk here found steps = .ok (here ++ steps, e) := by
  induction steps generalizing here found with
  | nil =>
    rw [append_nil, hfound] at h
    cases h
    rw [walk, append_nil]
  | cons part rest ih =>
    have hsome : (d.entry? (here ++ part :: rest)).isSome := by rw [h]; rfl
    obtain rfl : found = .directory :=
      Option.some.inj (hfound.symm.trans (hd.directory_of_append (cons_ne_nil _ _) hsome))
    have hname := hd.named _ hsome part (by simp)
    rw [append_cons] at h ⊢
    obtain ⟨next, hnext⟩ : ∃ next, d.entry? (here ++ [part]) = some next := by
      by_cases hrest : rest = []
      · exact ⟨e, by rwa [hrest, append_nil] at h⟩
      · exact ⟨_, hd.directory_of_append hrest (by rw [h]; rfl)⟩
    rw [walk, if_neg (by simp [hname.2.2.2]), hname.step]
    simp only [hnext]
    exact ih hnext h

theorem entry?_of_walk
    (hfound : d.entry? here = some found) (h : d.walk here found steps = .ok (l, e)) : d.entry? l = some e := by
  induction steps generalizing here found with
  | nil =>
    cases h
    exact hfound
  | cons part rest ih =>
    cases found with
    | file content => cases h
    | directory =>
      rw [walk] at h
      split at h
      · cases h
      · dsimp only at h
        split at h
        · cases h
        · next hnext => exact ih hnext h

theorem foldl_step_of_notMem (h : ".." ∉ steps) (here : Location) :
    steps.foldl step here = here ++ steps := by
  induction steps generalizing here with
  | nil => exact (append_nil here).symm
  | cons part rest ih =>
    rw [mem_cons, not_or] at h
    rw [foldl_cons, ih h.2, step, if_neg (by simpa using Ne.symm h.1), append_assoc]
    rfl

theorem IsTree.toOption_find (hd : d.IsTree) (hl : ".." ∉ l) : (d.find (ofLocation l)).toOption = d.entry? l := by
  cases hentry : d.entry? l with
  | some e =>
    have hwalk : d.walk [] .directory l = .ok (l, e) := hd.walk_of_entry l rfl hentry
    unfold find locate
    rw [hd.askable l (by rw [hentry]; rfl)]
    show (Except.map _ (d.walk [] .directory l)).toOption = _
    rw [hwalk]
    rfl
  | none =>
    cases hfind : d.find (ofLocation l) with
    | error cause => rfl
    | ok e =>
      exfalso
      unfold find locate at hfind
      split at hfind
      · cases hfind
      · replace hfind : Except.map (·.2) (d.walk [] .directory l) = .ok e := hfind
        rcases hwalk : d.walk [] .directory l with cause | ⟨l', e'⟩
        · rw [hwalk] at hfind
          cases hfind
        · have hplace := eq_foldl_of_walk hwalk
          rw [foldl_step_of_notMem hl, nil_append] at hplace
          have hthere := entry?_of_walk rfl hwalk
          rw [hplace, hentry] at hthere
          cases hthere

theorem entry?_removeBelow (d : Disk) (hl : l ≠ []) (x : Location) :
    Disk.entry? (d.removeBelow l) x = if l <+: x then none else d.entry? x := by
  unfold entry? removeBelow
  dsimp only
  rw [lookup_filter fun k => !(l.isPrefixOf k)]
  cases x with
  | nil => simp [hl]
  | cons part rest =>
    simp only [Bool.not_eq_true', isEmpty_cons, Bool.false_eq_true, if_false, ← isPrefixOf_iff_prefix]
    cases l.isPrefixOf (part :: rest) <;> rfl

end Files.Disk

/-! ## Where names lead -/

namespace Files.Path

theorem notMem_foldl_step (steps : List String) {here : Location} (h : ".." ∉ here) :
    ".." ∉ steps.foldl step here := by
  induction steps generalizing here with
  | nil => exact h
  | cons part rest ih =>
    refine ih ?_
    unfold step
    split
    · exact fun hmem => h ((dropLast_sublist here).mem hmem)
    · next hpart => simpa [h] using fun e => hpart (by simp [← e])

theorem notMem_resolve {here : Location} (h : ".." ∉ here) (p : Path) : ".." ∉ p.resolve here := by
  refine notMem_foldl_step _ ?_
  unfold start
  split
  · exact not_mem_nil
  · exact h

end Files.Path

theorem Files.Path.mem_of_mem_ofString {c : Char} {name part : String} (h : part ∈ (ofString name).parts)
    (hc : c ∈ part.toList) : c ∈ name.toList := by
  obtain ⟨piece, hpiece, rfl⟩ := mem_map.mp (mem_filter.mp h).1
  rw [String.toList_ofList] at hc
  exact (Text.mem_of_mem_splitAt hpiece hc).1

/-! ## Cleaning -/

namespace Examples

def afterCleaning (d : Disk) (root : Path) (name : String) : Disk :=
  match cleanOutputs d root name with
  | .ok d' => d'
  | .error _ => d

def IsNameable (p : Path) : Prop := ∀ part ∈ p.parts, Text.hasUnnameable part = false

instance (p : Path) : Decidable (IsNameable p) :=
  inferInstanceAs (Decidable (∀ part ∈ p.parts, Text.hasUnnameable part = false))

theorem nameFault?_eq {p : Path} (h : ∀ part ∈ p.parts, '\x00' ∉ part.toList) :
    (IsNameable p ∧ nameFault? p = none) ∨ (¬ IsNameable p ∧ nameFault? p = some .unencodable) := by
  unfold nameFault? Disk.pathFault?
  by_cases hnameable : p.parts.any Text.hasUnnameable = true
  · rw [if_pos hnameable]
    obtain ⟨part, hpart, hhalf⟩ := any_eq_true.mp hnameable
    exact .inr ⟨fun hp => (hp part hpart).symm.trans hhalf |> Bool.false_ne_true, rfl⟩
  · have hnul : ¬ p.parts.any (fun part => part.toList.contains '\x00') = true := by
      intro hany
      obtain ⟨part, hpart, hmem⟩ := any_eq_true.mp hany
      exact h part hpart (contains_iff_mem.mp hmem)
    rw [if_neg hnameable, if_neg hnul]
    refine .inl ⟨fun part hpart => ?_, by split <;> simp_all⟩
    exact Bool.eq_false_iff.mpr fun hhalf => hnameable (any_eq_true.mpr ⟨part, hpart, hhalf⟩)

theorem isBelow_iff {root place : Location} : isBelow root place = true ↔ root <+: place ∧ root ≠ place := by
  simp [isBelow]

theorem cleanOutputs_cases (hd : d.IsTree) {root : Path} {name : String}
    (hfault : (nameFault? root).or (nameFault? (ofString name)) = none) :
    let place := outputPlace d.cwd root name
    let below := root.resolve d.cwd <+: place ∧ root.resolve d.cwd ≠ place
    (¬ below ∧ cleanOutputs d root name = .error (.outside place))
    ∨ (below ∧ d.entry? place = some .directory ∧ cleanOutputs d root name = .ok (d.removeBelow place))
    ∨ (below ∧ d.entry? place ≠ some .directory
      ∧ (cleanOutputs d root name = .ok d ∨ ∃ cause, cleanOutputs d root name = .error (.refused cause))) := by
  intro place below
  have hplace : ".." ∉ place := by
    refine notMem_resolve (fun hup => ?_) _
    exact (hd.named _ (by rw [hd.standing]; rfl) _ hup).2.1 rfl
  have hfind := hd.toOption_find hplace
  unfold cleanOutputs
  simp only [hfault]
  by_cases hbelow : isBelow (root.resolve d.cwd) place = true
  · rw [if_pos hbelow]
    refine .inr ?_
    split
    · next hdir =>
      rw [hdir] at hfind
      exact .inl ⟨isBelow_iff.mp hbelow, hfind.symm, rfl⟩
    · next hfile =>
      rw [hfile] at hfind
      exact .inr ⟨isBelow_iff.mp hbelow, by simp [← hfind, Except.toOption], .inr ⟨_, rfl⟩⟩
    · next herror =>
      rw [herror] at hfind
      exact .inr ⟨isBelow_iff.mp hbelow, by simp [← hfind, Except.toOption], .inr ⟨_, rfl⟩⟩
    · next _ _ herror =>
      rw [herror] at hfind
      exact .inr ⟨isBelow_iff.mp hbelow, by simp [← hfind, Except.toOption], .inl rfl⟩
  · rw [if_neg hbelow]
    exact .inl ⟨fun hb => hbelow (isBelow_iff.mpr hb), rfl⟩

/-- **Cleaning cannot reach outside.** The outputs of a program are refused exactly if their place is not
strictly below that of all outputs. All that is ever taken away is the directory at a place strictly below it,
with everything in it; a name that cannot be written as a path at all is refused as such. -/
theorem cleanOutputs_exact (hd : d.IsTree) {root : Path} (name : String)
    (hroot : ∀ part ∈ root.parts, '\x00' ∉ part.toList) (hname : '\x00' ∉ name.toList) :
    let place := outputPlace d.cwd root name
    let below := root.resolve d.cwd <+: place ∧ root.resolve d.cwd ≠ place
    let nameable := IsNameable root ∧ IsNameable (Path.ofString name)
    (nameable → ((∃ l, cleanOutputs d root name = .error (.outside l)) ↔ ¬ below))
    ∧ (¬ nameable → cleanOutputs d root name = .error (.refused .unencodable))
    ∧ (afterCleaning d root name).cwd = d.cwd
    ∧ (nameable ∧ below ∧ d.entry? place = some .directory →
      ∀ l, Disk.entry? (afterCleaning d root name) l = if place <+: l then none else d.entry? l)
    ∧ (¬ (nameable ∧ below ∧ d.entry? place = some .directory) → afterCleaning d root name = d) := by
  intro place below nameable
  have hfaults : (nameable ∧ (nameFault? root).or (nameFault? (Path.ofString name)) = none)
      ∨ ¬ nameable ∧ (nameFault? root).or (nameFault? (Path.ofString name)) = some .unencodable := by
    rcases nameFault?_eq hroot with ⟨hr, hnone⟩ | ⟨hr, hsome⟩
    · rw [hnone, Option.none_or]
      refine (nameFault?_eq fun part hpart hmem => hname (Path.mem_of_mem_ofString hpart hmem)).imp ?_ ?_
      · exact fun hn => ⟨⟨hr, hn.1⟩, hn.2⟩
      · exact fun hn => ⟨fun hboth => hn.1 hboth.2, hn.2⟩
    · rw [hsome]
      exact .inr ⟨fun hboth => hr hboth.1, rfl⟩
  unfold afterCleaning
  rcases hfaults with ⟨hnameable, hnone⟩ | ⟨hnot, hsome⟩
  · rcases cleanOutputs_cases hd hnone with ⟨hnot, heq⟩ | ⟨hbelow, hdir, heq⟩ | ⟨hbelow, hdir, hcases⟩
    · rw [heq]
      exact ⟨fun _ => iff_of_true ⟨_, rfl⟩ hnot, fun h => absurd hnameable h, rfl,
        fun h => absurd h.2.1 hnot, fun _ => rfl⟩
    · have hne : place ≠ [] := by
        intro hempty
        obtain ⟨hunder, hne⟩ := hbelow
        rw [show outputPlace d.cwd root name = [] from hempty] at hunder hne
        exact hne (List.prefix_nil.mp hunder)
      rw [heq]
      exact ⟨fun _ => iff_of_false (by simp) (not_not_intro hbelow), fun h => absurd hnameable h, rfl,
        fun _ l => d.entry?_removeBelow hne l, fun h => absurd ⟨hnameable, hbelow, hdir⟩ h⟩
    · have hsame : ∀ l, cleanOutputs d root name ≠ .error (.outside l) := by
        rcases hcases with heq | ⟨cause, heq⟩ <;> simp [heq]
      refine ⟨fun _ => iff_of_false (fun ⟨l, hl⟩ => hsame l hl) (not_not_intro hbelow),
        fun h => absurd hnameable h, ?_, fun h => absurd h.2.2 hdir, fun _ => ?_⟩
      all_goals rcases hcases with heq | ⟨cause, heq⟩ <;> rw [heq]
  · have heq : cleanOutputs d root name = .error (.refused .unencodable) := by
      unfold cleanOutputs
      simp only [hsome]
    rw [heq]
    exact ⟨fun h => absurd h hnot, fun _ => rfl, rfl, fun h => absurd h.1 hnot, fun _ => rfl⟩

/-- Two programs beside each other. The outputs of the one go by a name that leads out of the outputs and back
again; a name that leads to the outputs as a whole is refused. -/
theorem cleanOutputs_exact_detour :
    let d : Disk :=
      { entries := [(["home"], .directory), (["home", "outputs"], .directory),
          (["home", "outputs", "a"], .directory), (["home", "outputs", "a", "a.nqc"], .file (.text "a")),
          (["home", "outputs", "ab"], .file (.text "b"))]
        cwd := ["home"] }
    let root := Path.ofString "outputs"
    d.IsTree
    ∧ (∀ l, Disk.entry? (afterCleaning d root ".././/outputs/a/") l
      = if ["home", "outputs", "a"] <+: l then none else d.entry? l)
    ∧ afterCleaning d root "a/.." = d ∧ ∃ l, cleanOutputs d root "a/.." = .error (.outside l) := by
  intro d root
  have hd : d.IsTree := Disk.isTree_of_entries (by decide +kernel) (by decide +kernel)
  have hroot : ∀ part ∈ root.parts, '\x00' ∉ part.toList := by decide +kernel
  obtain ⟨-, -, -, hremoved, -⟩ := cleanOutputs_exact hd ".././/outputs/a/" hroot (by decide)
  obtain ⟨hrefused, -, -, -, hkept⟩ := cleanOutputs_exact hd "a/.." hroot (by decide)
  have hplace : outputPlace d.cwd root ".././/outputs/a/" = ["home", "outputs", "a"] := by decide +kernel
  rw [hplace] at hremoved
  refine ⟨hd, hremoved ⟨⟨?_, ?_⟩, ?_, ?_⟩, hkept fun h => absurd h.2.1 ?_, (hrefused ⟨?_, ?_⟩).mpr ?_⟩
  all_goals decide +kernel

end Examples

end NqcBlocks
