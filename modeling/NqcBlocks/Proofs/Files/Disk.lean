import NqcBlocks.Proofs.Files.Name

/-!
# What changes on a disk

A place is reached by following steps, and a disk without links has nothing but names to follow: what
`Disk.target` finds is the place that `Path.resolve` reads off the path. So where an operation changes
anything is known before it is carried out. Making directories changes only places on the way of the path
where nothing was (`Disk.OnlyMakes`), and writing a file changes the one place that the path names
(`Disk.write_cases`).
-/

namespace NqcBlocks

open List

variable {l : Location} {d : Disk}

namespace Files

/-! ## Names and paths -/

namespace Path

theorem ofString_of_notMem {s : String} (h : '/' ∉ s.toList) : ofString s = { parts := [s].filter isStep } := by
  have hsplit : Text.splitAt '/' s.toList = [s.toList] := by
    have hloop : ∀ cs : List Char, '/' ∉ cs → Text.splitAt '/' cs = [cs] := by
      intro cs
      induction cs with
      | nil => exact fun _ => rfl
      | cons c cs ih =>
        intro h
        rw [mem_cons, not_or] at h
        rw [Text.splitAt, if_neg (by simpa using Ne.symm h.1), ih h.2]
        rfl
    exact hloop _ h
  have hanchor : anchorOf s.toList = .here := by
    unfold anchorOf
    cases hs : s.toList with
    | nil => rfl
    | cons c cs =>
      have hc : c ≠ '/' := fun e => h (hs ▸ e ▸ mem_cons_self)
      rw [takeWhile_cons_of_neg (by simpa using hc)]
      rfl
  unfold ofString Text.splitOnChar
  rw [hanchor, hsplit, map_singleton, String.ofList_toList]

theorem child_of_notMem (p : Path) {name : String} (h : '/' ∉ name.toList) :
    p.child name = { p with parts := p.parts ++ [name].filter isStep } := by
  unfold child
  rw [ofString_of_notMem h]
  rfl

theorem resolve_append (here : Location) (p : Path) (steps : List String) :
    resolve here { p with parts := p.parts ++ steps } = steps.foldl step (p.resolve here) := by
  unfold resolve
  rw [foldl_append]
  rfl

def through (here : Location) : List String → List Location
  | [] => [here]
  | part :: rest => here :: through (step here part) rest

def way (here : Location) (p : Path) : List Location := through (p.start here) p.parts

end Path

theorem cleanFileName_spec (name : String) : '/' ∉ (cleanFileName name).toList ∧ cleanFileName name ≠ "" :=
  have hname := isFileName_cleanFileName name
  ⟨fun hmem => (hname.allowed _ hmem).2 (by decide), hname.nonempty⟩

theorem Path.resolve_child_name (here : Location) (p : Path) {name : String} (hslash : '/' ∉ name.toList)
    (hne : name ≠ "") :
    (p.child name).resolve here = if name = "." then p.resolve here
      else if name = ".." then (p.resolve here).dropLast else p.resolve here ++ [name] := by
  rw [p.child_of_notMem hslash, resolve_append]
  by_cases hdot : name = "."
  · rw [if_pos hdot, filter_cons_of_neg (by simp [isStep, hdot])]
    rfl
  · rw [if_neg hdot, filter_cons_of_pos (by simp [isStep, hdot, hne])]
    show step (p.resolve here) name = _
    unfold step
    by_cases hup : name = ".."
    · rw [if_pos hup, if_pos (by simpa using hup)]
    · rw [if_neg hup, if_neg (by simpa using hup)]

namespace Disk

/-! ## Places and what is there -/

variable {d₁ d₂ : Disk}

theorem lookup_filter (p : Location → Bool) (x : Location) (entries : List (Location × Entry)) :
    (entries.filter fun e => p e.1).lookup x = if p x then entries.lookup x else none := by
  induction entries with
  | nil => simp
  | cons entry entries ih =>
    obtain ⟨k, e⟩ := entry
    rw [filter_cons, lookup_cons]
    by_cases hx : x = k
    · subst hx
      cases hp : p x <;> simp [hp, ih]
    · have hne : (x == k) = false := beq_eq_false_iff_ne.mpr hx
      cases hp : p k <;> simp [ih, lookup_cons, hne]

theorem entry?_put (d : Disk) (hl : l ≠ []) (e : Entry) (x : Location) :
    entry? (d.put l e) x = if x = l then some e else d.entry? x := by
  unfold entry? put
  dsimp only
  rw [lookup_append, lookup_filter (· != l)]
  by_cases hx : x = l
  · subst hx
    simp [hl]
  · simp [hx, lookup_cons, beq_eq_false_iff_ne.mpr hx]

/-! ## Following paths -/

theorem eq_foldl_of_walk {steps : List String} {here : Location} {found e : Entry}
    (h : d.walk here found steps = .ok (l, e)) : l = steps.foldl Path.step here := by
  induction steps generalizing here found with
  | nil =>
    cases h
    rfl
  | cons part rest ih =>
    cases found with
    | file content => cases h
    | directory =>
      rw [walk] at h
      split at h
      · cases h
      · dsimp only at h
        split at h
        · cases h
        · exact ih h

theorem eq_resolve_of_target {p : Path} (h : d.target p = .ok l) : l = p.resolve d.cwd := by
  unfold target at h
  split at h
  · cases h
  split at h
  · next hparts =>
    cases h
    unfold Path.resolve
    rw [List.getLast?_eq_none_iff.mp hparts]
    rfl
  · next last hlast =>
    cases hfollow : d.follow p p.parts.dropLast with
    | error cause =>
      rw [hfollow] at h
      cases h
    | ok found =>
      obtain ⟨here, e⟩ := found
      rw [hfollow] at h
      have hhere : here = p.parts.dropLast.foldl Path.step (p.start d.cwd) := by
        unfold follow at hfollow
        split at hfollow
        · cases hfollow
        · exact eq_foldl_of_walk hfollow
      have hparts : p.parts = p.parts.dropLast ++ [last] := by
        obtain ⟨steps, hsteps⟩ := List.getLast?_eq_some_iff.mp hlast
        rw [hsteps, dropLast_concat]
      cases e with
      | file content => cases h
      | directory =>
        replace h : (if (last != ".." && isTooLong last) = true then .error .nameTooLong
          else .ok (Path.step here last) : Except FileError Location) = .ok l := h
        split at h
        · cases h
        · cases h
          unfold Path.resolve
          rw [hparts, foldl_append, hhere]
          rfl

/-! ## Making directories and writing files -/

/-- **Only directories have been made**, at some of the places, where nothing was. -/
structure OnlyMakes (d d' : Disk) (places : List Location) : Prop where
  cwd : d'.cwd = d.cwd
  entry : ∀ l, d'.entry? l = d.entry? l
    ∨ l ∈ places ∧ d.entry? l = none ∧ d'.entry? l = some .directory

theorem OnlyMakes.refl (d : Disk) (places : List Location) : OnlyMakes d d places :=
  ⟨rfl, fun _ => .inl rfl⟩

theorem OnlyMakes.mono {d' : Disk} {places places' : List Location} (h : OnlyMakes d d' places)
    (hsub : places ⊆ places') : OnlyMakes d d' places' :=
  ⟨h.cwd, fun l => (h.entry l).imp_right fun hl => ⟨hsub hl.1, hl.2⟩⟩

theorem OnlyMakes.put {d' : Disk} {places : List Location} (hl : l ≠ []) (hmem : l ∈ places)
    (hnone : d.entry? l = none) (h : OnlyMakes (d.put l .directory) d' places) : OnlyMakes d d' places := by
  refine ⟨h.cwd, fun x => ?_⟩
  have hentry := h.entry x
  rw [entry?_put d hl] at hentry
  by_cases hx : x = l
  · subst hx
    rw [if_pos rfl] at hentry
    exact .inr ⟨hmem, hnone, hentry.elim id fun h => absurd h.2.1 (Option.some_ne_none _)⟩
  · rwa [if_neg hx] at hentry

theorem onlyMakes_makeSteps (d : Disk) (here : Location) (steps : List String) :
    OnlyMakes d (d.makeSteps here steps).1 (Path.through here steps) := by
  induction steps generalizing d here with
  | nil => exact .refl d _
  | cons part rest ih =>
    have hsub : Path.through (Path.step here part) rest ⊆ Path.through here (part :: rest) := subset_cons_self _ _
    rw [makeSteps]
    split
    · next hup =>
      have hstep : here.dropLast = Path.step here part := (if_pos hup).symm
      rw [hstep]
      exact (ih d _).mono hsub
    · next hup =>
      have hstep : here ++ [part] = Path.step here part := (if_neg hup).symm
      split
      · exact .refl d _
      · dsimp only
        rw [hstep]
        split
        · exact (ih d _).mono hsub
        · exact .refl d _
        · next hnone =>
          have hne : Path.step here part ≠ [] := hstep ▸ by simp
          have hmem : Path.step here part ∈ Path.through here (part :: rest) := by
            cases rest <;> simp [Path.through]
          exact .put hne hmem hnone ((ih _ _).mono hsub)

theorem onlyMakes_makeDirs (d : Disk) (p : Path) : OnlyMakes d (d.makeDirs p).1 (p.way d.cwd) := by
  unfold makeDirs
  split
  · exact .refl d _
  · split
    · exact .refl d _
    · exact onlyMakes_makeSteps d _ _

/-- **What writing a file does**: nothing if it is refused, unless the text has no encoding, and else a file
with the text at the place that the path names, where no directory was. -/
theorem write_cases (d : Disk) (p : Path) (text : String) : (∃ cause, d.write p text = (d, .error cause))
    ∨ p.resolve d.cwd ≠ [] ∧ d.entry? (p.resolve d.cwd) ≠ some .directory
      ∧ d.write p text = if Text.hasHalf text
        then (d.put (p.resolve d.cwd) (.file (.text "")), .error .unencodable)
        else (d.put (p.resolve d.cwd) (.file (.text text)), .ok ()) := by
  unfold write
  cases htarget : d.target p with
  | error cause => exact .inl ⟨cause, rfl⟩
  | ok l =>
    rw [← eq_resolve_of_target htarget]
    dsimp only
    split
    · exact .inl ⟨.isDirectory, rfl⟩
    · next hdir =>
      refine .inr ⟨?_, hdir, rfl⟩
      rintro rfl
      exact hdir rfl

end Disk

end Files

end NqcBlocks
