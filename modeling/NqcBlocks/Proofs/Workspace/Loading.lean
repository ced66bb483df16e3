import NqcBlocks.Proofs.Workspace.Entry

/-!
# The steps of loading a workspace

The blocks of a workspace come about by creating one after the other and plugging them in once what is
below them is complete. `Gives` says that a step of this ends well, and for every function of the loader
there is one lemma that says what its steps are: entries are read, blocks are created, and blocks are plugged
in, which are edits of the graph.
-/

namespace NqcBlocks

variable {h : Handle} {entry : Json} {read : BlockEntry} {e e' : Editor}

namespace Workspace

/-! ## Steps of the loader -/

section Gives

variable {α β : Type} {x : Load α} {f : α → Load β} {b : β}

def Gives (x : Load α) (e : Editor) (a : α) (e' : Editor) : Prop := x.run.run e = (.ok a, e')

theorem gives_bind_iff : Gives (x >>= f) e b e' ↔ ∃ a e₁, Gives x e a e₁ ∧ Gives (f a) e₁ b e' := by
  unfold Gives
  rw [ExceptT.run_bind, StateT.run_bind]
  rcases hx : x.run.run e with ⟨r, e₁⟩
  constructor
  · intro h
    cases r with
    | error err => cases h
    | ok a => exact ⟨a, e₁, rfl, h⟩
  · rintro ⟨a, e₁', hxa, h⟩
    cases hxa
    exact h

theorem gives_pure_iff {b' : β} : Gives (pure b) e b' e' ↔ b' = b ∧ e' = e := by
  constructor
  · rintro ⟨⟩
    exact ⟨rfl, rfl⟩
  · rintro ⟨rfl, rfl⟩
    rfl

theorem not_gives_throw {cause : LoadError} : ¬ Gives (throw cause : Load β) e b e' := nofun

theorem gives_get_bind_iff {f : Editor → Load β} : Gives (get >>= f) e b e' ↔ Gives (f e) e b e' := .rfl

theorem gives_lift_bind_iff {y : Except LoadError α} :
    Gives (liftM y >>= f) e b e' ↔ ∃ a, y = .ok a ∧ Gives (f a) e b e' := by
  cases y with
  | error cause => exact ⟨nofun, nofun⟩
  | ok a =>
    constructor
    · exact fun h => ⟨a, rfl, h⟩
    · rintro ⟨a', ha, h⟩
      cases ha
      exact h

theorem discard_eq (x : Load α) : discard x = x >>= fun _ => pure () := by
  rw [discard, map_const, Function.comp_apply, map_eq_pure_bind]

end Gives

section Steps

theorem eq_behind {connection : Json} {entry : Option Json} (h : linked connection = .ok entry) :
    entry = behind connection := by
  unfold linked at h
  unfold behind
  split at h
  · next hfalsy =>
    cases h
    cases connection with
    | object members =>
      obtain rfl : members = [] := by simpa [Json.isTruthy] using hfalsy
      rfl
    | null | bool | number | text | list => rfl
  · split at h
    · next members =>
      rw [membersIn]
      split at h
      · next hblock =>
        cases h
        rw [hblock]
        rfl
      · next hblock =>
        cases h
        rw [hblock]
        rfl
    · cases h

theorem membersOf_object (members : Table Json) : membersOf (.object members) = .ok members := by
  cases members <;> rfl

theorem eq_nil_of_membersOf {j : Json} {members : Table Json} (hj : ∀ inputs, j ≠ .object inputs)
    (h : membersOf j = .ok members) : members = [] := by
  rw [eq_membersIn h]
  cases j with
  | object inputs => exact absurd rfl (hj inputs)
  | null | bool | number | text | list => rfl

theorem eq_object_of_gives (hg : Gives (buildBlock entry) e h e') : entry = .object (membersIn entry) := by
  cases entry with
  | null | bool | number | text | list =>
    rw [buildBlock] at hg
    · exact absurd hg not_gives_throw
    · simp
  | object members => rfl

theorem buildBlock_object (members : Table Json) : buildBlock (.object members) = (do
    let read ← readEntry (← get).graph.catalog members
    let h ← createBlock read
    buildInputs read h (← membersOf (member members "inputs"))
    pure h) := by
  rw [buildBlock, member]
  refine bind_congr fun e => bind_congr fun read => bind_congr fun h => ?_
  have hnil : (buildInputs read h [] >>= fun _ => pure h) = pure h := by
    rw [buildInputs]
    rfl
  split
  · next inputs hi =>
    rw [hi, Option.getD_some, membersOf_object]
    rfl
  · next other hother hi =>
    rw [hi, Option.getD_some]
    cases hm : membersOf other with
    | error cause => rfl
    | ok inputs =>
      rw [eq_nil_of_membersOf hother hm]
      exact hnil.symm
  · next hi =>
    rw [hi]
    exact hnil.symm

/-- What is behind an input is built and plugged in. -/
def plug (read : BlockEntry) (owner : Handle) (input : String) : Option Json → Load Unit
  | none => pure ()
  | some entry => do
    let slot := read.palette.input input
    let node := ((← get).graph.get? owner).getD { handle := owner, kind := read.palette.kind }
    if node.valueSlots.contains slot then
      let child ← buildBlock entry
      connect entry (.connectValue owner slot child)
    else if node.statementSlots.contains slot then
      let child ← buildChain entry
      connect entry (.connectStatement owner slot child)
    else throw (.noInput read.id read.type input)

theorem buildInputs_cons (read : BlockEntry) (owner : Handle) (input : String) (connection : Json)
    (rest : List (String × Json)) : buildInputs read owner ((input, connection) :: rest) = (do
      plug read owner input (← linked connection)
      buildInputs read owner rest) := by
  rw [buildInputs]
  split
  · next hlinked =>
    rw [hlinked]
    rfl
  · next hlinked =>
    rw [hlinked]
    rfl
  · next entry hlinked =>
    rw [hlinked]
    show _ = plug read owner input (some entry) >>= fun _ => buildInputs read owner rest
    rw [plug, bind_assoc]
    refine bind_congr fun e => ?_
    dsimp only
    split
    · rw [bind_assoc]
    · split
      · rw [bind_assoc]
      · rfl

theorem buildNext_eq (previous : Handle) (entry : Json) : buildNext previous entry = (do
    match ← linked (member (membersIn entry) "next") with
    | none => pure ()
    | some following =>
      let h ← buildBlock following
      connect following (.connectNext previous h)
      buildNext h following) := by
  cases entry with
  | null | bool | number | text | list =>
    rw [buildNext]
    · rfl
    · simp
  | object members =>
    rw [buildNext, membersIn, member]
    split
    · next hn =>
      rw [hn]
      rfl
    · next connection hn =>
      rw [hn, Option.getD_some]
      split <;> next hlinked => rw [hlinked]; rfl

theorem gives_buildBlock_iff {members : Table Json} : Gives (buildBlock (.object members)) e h e' ↔ ∃ read e₁ inputs,
      readEntry e.graph.catalog members = .ok read ∧ Gives (createBlock read) e h e₁
      ∧ membersOf (member members "inputs") = .ok inputs ∧ Gives (buildInputs read h inputs) e₁ () e' := by
  rw [buildBlock_object, gives_get_bind_iff, gives_lift_bind_iff]
  constructor
  · rintro ⟨read, hread, hg⟩
    obtain ⟨_, e₁, hcreate, hg⟩ := gives_bind_iff.mp hg
    obtain ⟨inputs, hmembers, hg⟩ := gives_lift_bind_iff.mp hg
    obtain ⟨⟨⟩, _, hinputs, hg⟩ := gives_bind_iff.mp hg
    obtain ⟨rfl, rfl⟩ := gives_pure_iff.mp hg
    exact ⟨read, e₁, inputs, hread, hcreate, hmembers, hinputs⟩
  · rintro ⟨read, e₁, inputs, hread, hcreate, hmembers, hinputs⟩
    exact ⟨read, hread, gives_bind_iff.mpr ⟨h, e₁, hcreate, gives_lift_bind_iff.mpr ⟨inputs, hmembers,
      gives_bind_iff.mpr ⟨(), e', hinputs, rfl⟩⟩⟩⟩

theorem gives_plug_iff {owner : Handle} {input : String} : Gives (plug read owner input (some entry)) e () e' ↔
    let slot := read.palette.input input
    let node := (e.graph.get? owner).getD { handle := owner, kind := read.palette.kind }
    ∃ child e₁, node.valueSlots.contains slot = true ∧ Gives (buildBlock entry) e child e₁
        ∧ Gives (connect entry (.connectValue owner slot child)) e₁ () e'
      ∨ node.valueSlots.contains slot = false ∧ node.statementSlots.contains slot = true
        ∧ Gives (buildChain entry) e child e₁ ∧ Gives (connect entry (.connectStatement owner slot child)) e₁ () e' := by
  rw [plug, gives_get_bind_iff]
  dsimp only
  split
  · next hvalue => simp [gives_bind_iff, hvalue]
  · next hvalue =>
    split
    · next hstatement => simp [gives_bind_iff, hvalue, hstatement]
    · next hstatement => simp [not_gives_throw, hvalue, hstatement]

theorem gives_buildChain_iff : Gives (buildChain entry) e h e'
    ↔ ∃ e₁, Gives (buildBlock entry) e h e₁ ∧ Gives (buildNext h entry) e₁ () e' := by
  simp only [buildChain, gives_bind_iff, gives_pure_iff]
  constructor
  · rintro ⟨_, e₁, hblock, ⟨⟩, _, hnext, rfl, rfl⟩
    exact ⟨e₁, hblock, hnext⟩
  · rintro ⟨e₁, hblock, hnext⟩
    exact ⟨h, e₁, hblock, (), e', hnext, rfl, rfl⟩

theorem gives_buildNext_iff {previous : Handle} : Gives (buildNext previous entry) e () e' ↔
    linked (member (membersIn entry) "next") = .ok none ∧ e' = e
    ∨ ∃ following h e₁ e₂, linked (member (membersIn entry) "next") = .ok (some following)
      ∧ Gives (buildBlock following) e h e₁
      ∧ Gives (connect following (.connectNext previous h)) e₁ () e₂
      ∧ Gives (buildNext h following) e₂ () e' := by
  rw [buildNext_eq, gives_lift_bind_iff]
  constructor
  · rintro ⟨_ | following, hlinked, hg⟩
    · exact .inl ⟨hlinked, (gives_pure_iff.mp hg).2⟩
    · obtain ⟨h, e₁, hblock, hg⟩ := gives_bind_iff.mp hg
      obtain ⟨⟨⟩, e₂, hconnect, hg⟩ := gives_bind_iff.mp hg
      exact .inr ⟨following, h, e₁, e₂, hlinked, hblock, hconnect, hg⟩
  · rintro (⟨hlinked, rfl⟩ | ⟨following, h, e₁, e₂, hlinked, hblock, hconnect, hg⟩)
    · exact ⟨none, hlinked, rfl⟩
    · exact ⟨some following, hlinked,
        gives_bind_iff.mpr ⟨h, e₁, hblock, gives_bind_iff.mpr ⟨(), e₂, hconnect, hg⟩⟩⟩

end Steps

/-! ## Editors at work -/

variable {members : Table Json} {command : Command} {f : Graph → Except GraphError Edit}

theorem exists_of_createBlock (hcatalog : e.graph.catalog = .builtin)
    (hread : readEntry .builtin members = .ok read) (hg : Gives (createBlock read) e h e') :
    h = e.graph.nextHandle
      ∧ (specOf (.object members)).slots (mutationOf (.object members)) = .ok (socketsOf (.object members))
      ∧ ∃ edit, e.graph.create read.palette.kind.tag read.init = .ok (h, edit) ∧ e' = e.commit edit
        ∧ edit.graph = e.graph.push (Placement.node ⟨.object members, e.graph.nextHandle, none, [], none⟩) := by
  obtain ⟨hspec, hpalette, -⟩ := readEntry_eq hread
  have hkind : BlockKind.ofTag read.palette.kind.tag = (paletteOf (.object members)).kind := by
    rw [hpalette]
    refine BlockKind.ofTag_tag_of_mem ?_
    revert hspec
    cases (paletteOf (.object members)).kind <;> first | (intro _; decide) | nofun
  rw [createBlock, gives_get_bind_iff] at hg
  unfold Editor.create at hg
  cases hcreate : e.graph.create read.palette.kind.tag read.init with
  | error cause =>
    rw [hcreate] at hg
    exact absurd hg not_gives_throw
  | ok created =>
    rw [hcreate] at hg
    cases hg
    have hcreated := hcreate
    unfold Graph.create at hcreated
    rw [hkind, hcatalog, Catalog.spec?_builtin, hspec] at hcreated
    dsimp only at hcreated
    split at hcreated
    · cases hcreated
    · next n hnew =>
      obtain ⟨hslots, rfl⟩ := newNode_eq hread hnew
      cases hcreated
      exact ⟨rfl, hslots, _, rfl, rfl, rfl⟩

theorem gives_connect_iff
    (hcommand : e.perform command = e.apply f) : Gives (connect (.object members) command) e () e'
      ↔ ∃ edit, f e.graph = .ok edit ∧ edit.lost = none ∧ e' = e.commit edit := by
  unfold connect perform
  constructor
  · intro hg
    rw [gives_get_bind_iff, hcommand] at hg
    unfold Editor.apply at hg
    cases hedit : f e.graph with
    | error cause =>
      rw [hedit] at hg
      cases hg
    | ok edit =>
      rw [hedit] at hg
      dsimp only at hg
      cases hlost : edit.lost with
      | none =>
        rw [hlost] at hg
        cases hg
        exact ⟨edit, rfl, hlost, rfl⟩
      | some lost =>
        rw [hlost] at hg
        cases hg
  · rintro ⟨edit, hedit, hlost, rfl⟩
    refine gives_bind_iff.mpr ⟨e, e, rfl, ?_⟩
    rw [hcommand, Editor.apply, hedit]
    dsimp only
    rw [hlost]
    rfl

theorem exists_of_connect
    (hentry : entry = .object (membersIn entry)) (hcommand : e.perform command = e.apply f)
    (hg : Gives (connect entry command) e () e') : ∃ edit, f e.graph = .ok edit ∧ e' = e.commit edit := by
  rw [hentry] at hg
  obtain ⟨edit, hedit, -, rfl⟩ := (gives_connect_iff hcommand).mp hg
  exact ⟨edit, hedit, rfl⟩

theorem contains_valueSlots_node (p : Placement) (slot : String) :
    p.node.valueSlots.contains slot = (socketsOf p.entry).1.any (·.name == slot) := by
  rw [Bool.eq_iff_iff, Table.contains_iff, List.any_eq_true]
  unfold Placement.node Table.names
  simp

end Workspace

end NqcBlocks
