import NqcBlocks.Proofs.Graph.Edit
import NqcBlocks.Proofs.Workspace.Outline

/-!
# What an entry says about its block

Reading an entry and creating its block, put together: if nothing is refused, then the block is the one
that the entry describes (`newNode_eq`). The longest way is that of the fields. What an entry states is
collected first, with the names of the palette translated and numerals read, and then every value is
checked by its field and written over the default of the kind.
-/

namespace NqcBlocks

open List Table Graph

variable {spec : BlockSpec} {fields members : Table Json} {f : FieldSpec} {v w : Json}

theorem Graph.get?_admitFields {given : Table Json} (hgiven : given.names.Nodup)
    {fields' : Table Json} (h : admitFields spec fields given = .ok fields') (name : String) :
    match given.get? name with
    | none => fields'.get? name = fields.get? name
    | some v => ∃ f w, spec.field? name = some f ∧ f.checked v = .ok w ∧ fields'.get? name = some w := by
  induction given generalizing fields with
  | nil =>
    cases h
    rfl
  | cons e rest ih =>
    obtain ⟨k, v⟩ := e
    rw [names_cons, nodup_cons] at hgiven
    rw [admitFields] at h
    split at h
    · cases h
    next f hf =>
    split at h
    · cases h
    next w hw =>
    have hrest := ih hgiven.2 h
    rw [get?_cons]
    by_cases hk : k = name
    · subst hk
      rw [get?_eq_none_iff.mpr hgiven.1] at hrest
      dsimp only at hrest
      rw [get?_insert, if_pos rfl] at hrest
      rw [if_pos rfl]
      exact ⟨f, w, hf, hw, hrest⟩
    · rw [if_neg hk]
      rw [get?_insert, if_neg hk] at hrest
      exact hrest

theorem FieldSpec.eq_of_checked (h : f.checked v = .ok w) (hk : f.kind ≠ .identifier) : w = v := by
  unfold checked at h
  cases hkind : f.kind <;> rw [hkind] at h <;> dsimp only at h
  case identifier => exact absurd hkind hk
  case text =>
    split at h
    · exact (Except.ok.inj h).symm
    · cases h
  case dropdown =>
    split at h
    · split at h
      · exact (Except.ok.inj h).symm
      · cases h
    · cases h
  case number =>
    split at h
    · split at h
      · cases h
      · split at h
        · cases h
        · exact (Except.ok.inj h).symm
    · cases h

theorem FieldSpec.eq_strip_of_checked (h : f.checked v = .ok w) (hk : f.kind = .identifier) :
    ∃ s, v = .text s ∧ w = .text (Text.strip s) := by
  unfold checked at h
  rw [hk] at h
  dsimp only at h
  split at h
  · next s =>
    split at h
    · cases h
      exact ⟨s, rfl, rfl⟩
    · cases h
  · cases h

namespace Workspace

theorem eq_held {id value : Json} {name : String} (hf : spec.field? name = some f)
    (hv : fieldValue spec id name value = .ok v) (hw : f.checked v = .ok w) : w = f.held value := by
  unfold fieldValue at hv
  rw [hf, Option.map_some] at hv
  unfold FieldSpec.held
  cases hk : f.kind with
  | identifier =>
    obtain ⟨s, rfl, rfl⟩ := FieldSpec.eq_strip_of_checked hw hk
    rw [hk] at hv
    cases value <;> cases hv
    rfl
  | text | dropdown =>
    rw [FieldSpec.eq_of_checked hw (by rw [hk]; nofun)]
    rw [hk] at hv
    cases value <;> cases hv <;> rfl
  | number =>
    rw [FieldSpec.eq_of_checked hw (by rw [hk]; nofun)]
    rw [hk] at hv
    cases value with
    | text s =>
      dsimp only at hv ⊢
      cases hd : Numeral.readDouble? s with
      | none => rw [hd] at hv; cases hv
      | some d =>
        rw [hd] at hv
        cases hv
        rfl
    | null | bool | number | list | object =>
      cases hv
      rfl

theorem get?_readFields {palette : PaletteEntry} {id : Json} {stated : List (String × Json)}
    (h : readFields spec palette id [] stated = .ok fields) :
    fields.names.Nodup ∧ ∀ name, match (ofEntries (stated.map fun e => (palette.field e.1, e.2))).get? name with
      | none => fields.get? name = none
      | some value => ∃ v, fieldValue spec id name value = .ok v ∧ fields.get? name = some v := by
  -- what has been written so far, as it is stated and as it is read
  have hloop : ∀ (stated : List (String × Json)) {raw read fields : Table Json},
      readFields spec palette id read stated = .ok fields → read.names.Nodup →
      (∀ name, match raw.get? name with
        | none => read.get? name = none
        | some value => ∃ v, fieldValue spec id name value = .ok v ∧ read.get? name = some v) →
      fields.names.Nodup ∧ ∀ name, match ((stated.map fun e => (palette.field e.1, e.2)).foldl
          (fun t e => insert e.1 e.2 t) raw).get? name with
        | none => fields.get? name = none
        | some value => ∃ v, fieldValue spec id name value = .ok v ∧ fields.get? name = some v := by
    intro stated
    induction stated with
    | nil =>
      intro raw read fields h hnodup hsame
      cases h
      exact ⟨hnodup, hsame⟩
    | cons e rest ih =>
      obtain ⟨key, value⟩ := e
      intro raw read fields h hnodup hsame
      rw [readFields] at h
      obtain ⟨v, hv, h⟩ := exists_of_bind_eq_ok h
      refine ih h (nodup_names_insert hnodup) fun name => ?_
      rw [get?_insert, get?_insert]
      by_cases hk : palette.field key = name
      · rw [if_pos hk, if_pos hk]
        exact ⟨v, hk ▸ hv, rfl⟩
      · rw [if_neg hk, if_neg hk]
        exact hsame name
  exact hloop stated h nodup_nil fun _ => rfl

theorem admitFields_eq {entry : Json} {fields' : Table Json}
    (hspec : Builtin.spec? (paletteOf entry).kind = some (specOf entry))
    (hread : readFields (specOf entry) (paletteOf entry) (member (membersIn entry) "id") []
      (membersIn (member (membersIn entry) "fields")) = .ok fields) (hwritten : admitFields (specOf entry)
      (ofEntries ((specOf entry).fields.map fun f => (f.name, f.default))) fields = .ok fields') :
    fields' = fieldsOf entry := by
  have hnodup := Builtin.nodup_fields hspec
  obtain ⟨hfields, hstated⟩ := get?_readFields hread
  have hholds := admitFields_holdsFields hnodup (Builtin.holdsFields_default hspec) hwritten
  have hnames : (fieldsOf entry).names = (specOf entry).fields.map (·.name) := by
    unfold fieldsOf names
    rw [map_map]
    rfl
  refine eq_of_get? (hholds.1.trans hnames.symm) (hholds.1 ▸ hnodup) fun name hname => ?_
  obtain ⟨f, hf, rfl⟩ := mem_map.mp (hholds.1 ▸ hname)
  have hfield : (fieldsOf entry).get? f.name
      = some ((((statedFields entry).get? f.name).map f.held).getD f.default) :=
    (get?_eq_some_iff (hnames ▸ hnodup)).mpr (mem_map_of_mem hf)
  have hgiven := get?_admitFields hfields hwritten f.name
  have hstated := hstated f.name
  rw [hfield]
  unfold statedFields
  cases hv : (ofEntries ((membersIn (member (membersIn entry) "fields")).map fun e =>
      ((paletteOf entry).field e.1, e.2))).get? f.name with
  | none =>
    rw [hv] at hstated
    rw [hstated] at hgiven
    dsimp only at hgiven
    have hdefaults : (((specOf entry).fields.map fun f => (f.name, f.default)).map (·.1)).Nodup := by
      rw [map_map]
      exact hnodup
    rw [hgiven, ofEntries_of_nodup hdefaults]
    exact (get?_eq_some_iff hdefaults).mpr (mem_map_of_mem hf)
  | some value =>
    rw [hv] at hstated
    obtain ⟨v, hv, hget⟩ := hstated
    rw [hget] at hgiven
    obtain ⟨f', w, hf', hw, hget'⟩ := hgiven
    obtain rfl : f' = f := by
      refine inj_on_of_nodup_map hnodup (mem_of_find?_eq_some hf') hf ?_
      simpa using find?_some hf'
    rw [hget', eq_held hf' hv hw]
    rfl

theorem eq_membersIn {j : Json} (h : membersOf j = .ok members) : members = membersIn j := by
  unfold membersOf at h
  split at h
  · next hfalsy =>
    cases h
    cases j with
    | object members => exact (by simpa [Json.isTruthy] using hfalsy : members = []).symm
    | null | bool | number | text | list => rfl
  · cases j <;> cases h
    rfl

theorem stateValue?_eq {state : Json} {key : String} {value : Option Json}
    (h : stateValue? ((state.truthy?).getD (.object [])) key = .ok value) :
    value = (membersIn state).get? key := by
  cases state with
  | object members =>
    cases members with
    | nil =>
      cases h
      rfl
    | cons e rest =>
      cases h
      rfl
  | null | bool | number | text | list =>
    unfold Json.truthy? at h
    split at h
    · unfold stateValue? at h
      simp only [Option.getD_some] at h
      try split at h
      all_goals cases h
      all_goals rfl
    · cases h
      rfl

/-- **An entry that is read** says which kind of block it is, and is read part by part. -/
theorem readEntry_eq_ok_iff {catalog : Catalog} {read : BlockEntry} : readEntry catalog members = .ok read
    ↔ ∃ s spec mutation stated fields comment, members.get? "type" = some (.text s)
      ∧ catalog.spec? (Palette.entry s).kind = some spec
      ∧ readMutation members (Palette.entry s).mutation = .ok mutation
      ∧ membersOf (member members "fields") = .ok stated
      ∧ readFields spec (Palette.entry s) (member members "id") [] stated = .ok fields
      ∧ readComment members = .ok comment
      ∧ read = { type := .text s, id := member members "id", palette := Palette.entry s,
                 init := { fields, mutation, comment, enabled := readEnabled members, id := member members "id" } } := by
  unfold readEntry
  constructor
  · intro h
    dsimp only at h
    split at h
    · cases h
    next type htype =>
    obtain ⟨palette?, hpalette, h⟩ := exists_of_bind_eq_ok h
    split at h
    · cases h
    next palette =>
    split at h
    · cases h
    next spec hspec =>
    obtain ⟨s, rfl, rfl⟩ : ∃ s, type = .text s ∧ palette = Palette.entry s := by
      cases type <;> cases hpalette
      exact ⟨_, rfl, rfl⟩
    obtain ⟨mutation, hmutation, h⟩ := exists_of_bind_eq_ok h
    obtain ⟨stated, hstated, h⟩ := exists_of_bind_eq_ok h
    obtain ⟨fields, hfields, h⟩ := exists_of_bind_eq_ok h
    obtain ⟨comment, hcomment, h⟩ := exists_of_bind_eq_ok h
    cases h
    exact ⟨s, spec, mutation, stated, fields, comment, htype, hspec, hmutation, hstated, hfields, hcomment, rfl⟩
  · rintro ⟨s, spec, mutation, stated, fields, comment, htype, hspec, hmutation, hstated, hfields, hcomment, rfl⟩
    simp only [htype, typeEntry, hspec, hmutation, hstated, hfields, hcomment, bind, Except.bind]
    rfl

theorem paletteOf_object {s : String} (h : members.get? "type" = some (.text s)) :
    paletteOf (.object members) = Palette.entry s := by
  unfold paletteOf member membersIn
  rw [h]
  rfl

theorem readEntry_eq {read : BlockEntry} (h : readEntry .builtin members = .ok read) :
    Builtin.spec? (paletteOf (.object members)).kind = some (specOf (.object members))
      ∧ read.palette = paletteOf (.object members)
      ∧ readFields (specOf (.object members)) (paletteOf (.object members)) (member members "id") []
        (membersIn (member members "fields")) = .ok read.init.fields
      ∧ read.init.mutation = mutationOf (.object members)
      ∧ read.init.comment = (readComment members).toOption.join
      ∧ read.init.enabled = readEnabled members ∧ read.init.id = member members "id" := by
  obtain ⟨s, spec, mutation, stated, fields, comment, htype, hspec, hmutation, hstated, hfields, hcomment, rfl⟩ :=
    readEntry_eq_ok_iff.mp h
  rw [Catalog.spec?_builtin] at hspec
  rw [eq_membersIn hstated] at hfields
  unfold specOf mutationOf
  rw [paletteOf_object htype, hspec, membersIn, hmutation, hcomment]
  exact ⟨rfl, rfl, hfields, rfl, rfl, rfl, rfl⟩

theorem newNode_eq {read : BlockEntry} {h : Handle} {n : Node} (hread : readEntry .builtin members = .ok read)
    (hnew : newNode h (specOf (.object members)) read.init = .ok n) :
    (specOf (.object members)).slots (mutationOf (.object members)) = .ok (socketsOf (.object members))
      ∧ n = Placement.node ⟨.object members, h, none, [], none⟩ := by
  obtain ⟨hspec, -, hfields, hmutation, hcomment, henabled, hid⟩ := readEntry_eq hread
  obtain ⟨values, statements, fields, hslots, hwritten, rfl⟩ := exists_of_newNode hspec hnew
  rw [hmutation] at hslots
  have hsockets : socketsOf (.object members) = (values, statements) := by
    unfold socketsOf
    rw [hslots]
    rfl
  refine ⟨by rw [hslots, hsockets], ?_⟩
  rw [admitFields_eq hspec hfields hwritten, hmutation, hcomment, henabled, hid]
  unfold Placement.node
  rw [hsockets]
  rfl

end Workspace

end NqcBlocks
