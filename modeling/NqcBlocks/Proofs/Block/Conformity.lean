import NqcBlocks.Viewer.Action
import NqcBlocks.Proofs.Table
import NqcBlocks.Proofs.Text.Trimming

/-!
# Blocks that conform to their kind

A block **conforms** to the specification of its kind if it has exactly the sockets that the kind and
its shape parameters ask for, and exactly the fields of the kind, each holding a value that the field
takes as it is. `Node.Conforms` says so, and every block that can be created conforms
(`newNode_conforms`).
-/

namespace NqcBlocks

open List String Table Number Graph Text

variable {spec : BlockSpec} {n : Node} {kind : BlockKind} {c : Char} {f : FieldSpec} {s : String}

/-! ## Field values -/

theorem toNat_of_isNameChar (h : isNameChar c = true) : 48 ≤ c.toNat ∧ c.toNat ≤ 122 := by
  simp only [isNameChar, isNameStart, Bool.or_eq_true, Bool.and_eq_true, decide_eq_true_eq,
    beq_iff_eq, Char.le_def, UInt32.le_iff_toNat_le] at h
  have hn : c.toNat = c.val.toNat := rfl
  rcases h with ((⟨h, h'⟩ | ⟨h, h'⟩) | rfl) | ⟨h, h'⟩ <;> simp at * <;> omega

theorem isBlank_of_isNameChar (h : isNameChar c = true) : isBlank c = false := by
  have hc := toNat_of_isNameChar h
  unfold isBlank
  simp only [Bool.or_eq_false_iff, Bool.and_eq_false_iff, decide_eq_false_iff_not, beq_eq_false_iff_ne]
  omega

theorem isNameChar_of_isName (h : isName s = true) (hc : c ∈ s.toList) : isNameChar c = true := by
  unfold isName at h
  cases hs : s.toList with
  | nil => rw [hs] at hc; cases hc
  | cons d rest =>
    rw [hs] at h hc
    rw [Bool.and_eq_true, all_eq_true] at h
    rcases mem_cons.mp hc with rfl | hc
    · unfold isNameChar
      rw [h.1, Bool.true_or]
    · exact h.2 _ hc

theorem strip_of_isName (h : isName s = true) : strip s = s := by
  have hblank : ∀ c ∈ s.toList, isBlank c = false := fun c hc => isBlank_of_isNameChar (isNameChar_of_isName h hc)
  unfold strip
  rw [trimChars_eq_self (fun c hc => hblank c (mem_of_mem_head? hc))
    (fun c hc => hblank c (mem_of_mem_getLast? hc)), ofList_toList]

theorem FieldSpec.checked_idem {v w : Json} (h : f.checked v = .ok w) : f.checked w = .ok w := by
  unfold FieldSpec.checked at h ⊢
  cases hk : f.kind with
  | dropdown =>
    rw [hk] at h
    cases v <;> simp only [reduceCtorEq] at h
    split at h
    · next s hs => cases h; simp only [hs, if_true]
    · cases h
  | number =>
    rw [hk] at h
    cases v <;> simp only [reduceCtorEq] at h
    next n =>
      split at h
      · cases h
      · next hmin =>
        split at h
        · cases h
        · next hmax => cases h; simp only [hmin, hmax]
  | identifier =>
    rw [hk] at h
    cases v <;> simp only [reduceCtorEq] at h
    next s =>
      split at h
      · next hs =>
        cases h
        have hstrip : strip (strip s) = strip s := by
          rw [Bool.or_eq_true, Bool.and_eq_true] at hs
          rcases hs with ⟨he, -⟩ | hn
          · rw [String.isEmpty_iff.mp he]
            rfl
          · exact strip_of_isName hn
        simp only [hstrip, hs, if_true]
      · cases h
  | text =>
    rw [hk] at h
    cases v <;> simp only [reduceCtorEq] at h
    cases h
    rfl

namespace Builtin

theorem kind_of_spec? (h : spec? kind = some spec) : spec.kind = kind := by
  cases kind <;> simp only [spec?, Option.some.injEq, reduceCtorEq] at h <;> subst h <;> rfl

theorem checked_default (h : spec? kind = some spec) : ∀ f ∈ spec.fields, f.checked f.default = .ok f.default := by
  cases kind <;> simp only [spec?, Option.some.injEq, reduceCtorEq] at h <;> subst h <;>
    simp only [sensorSetup, sensorValue, mem_cons, not_mem_nil, or_false,
      forall_eq_or_imp, forall_eq, IsEmpty.forall_iff, implies_true]
  all_goals first | rfl | exact ⟨rfl, rfl⟩

theorem nodup_fields (h : spec? kind = some spec) : (spec.fields.map (·.name)).Nodup := by
  cases kind <;> simp only [spec?, Option.some.injEq, reduceCtorEq] at h <;> subst h <;> decide

end Builtin

theorem Catalog.spec?_builtin (kind : BlockKind) : Catalog.builtin.spec? kind = Builtin.spec? kind :=
  Option.or_none

/-! ## Sockets -/

theorem Number.natText_injective : Function.Injective natText := by
  intro m n h
  unfold natText at h
  have hd : Nat.toDigits 10 m = Nat.toDigits 10 n := by
    simpa only [toList_ofList] using congrArg toList h
  rw [← Nat.ofDigitChars_ten_toDigits (n := m), hd, Nat.ofDigitChars_ten_toDigits]

theorem numbered_injective (word : String) : Function.Injective (fun n => word ++ natText n) := by
  intro m n h
  refine natText_injective (toList_injective ?_)
  have h' := congrArg toList h
  simp only [toList_append] at h'
  exact append_cancel_left h'

theorem append_ne_of_head {d : Char} (h : c ≠ d) {a b t : String} {cs ds : List Char}
    (ha : a.toList = c :: cs) (hb : b.toList = d :: ds) : a ++ s ≠ b ++ t := by
  intro e
  have e' := congrArg toList e
  rw [toList_append, toList_append, ha, hb, cons_append, cons_append] at e'
  exact h (List.cons.inj e').1

theorem nodup_branchSlots (count : Nat) (hasElse : Bool) :
    (nextPosition :: ((BlockSpec.branchSlots count hasElse).1.map (·.name)
      ++ (BlockSpec.branchSlots count hasElse).2)).Nodup := by
  have hrange : ∀ word : String, ((List.range (count + 1)).map fun n => word ++ natText n).Nodup :=
    fun word => List.nodup_range.map (numbered_injective word)
  have hsplit : nextPosition :: ((BlockSpec.branchSlots count hasElse).1.map (·.name)
        ++ (BlockSpec.branchSlots count hasElse).2)
      = [nextPosition] ++ (((List.range (count + 1)).map fun n => "IF" ++ natText n)
        ++ (((List.range (count + 1)).map fun n => "DO" ++ natText n) ++ if hasElse then ["ELSE"] else [])) := by
    simp only [BlockSpec.branchSlots, List.map_map]
    rfl
  have helse : ∀ x ∈ (if hasElse then ["ELSE"] else [] : List String), x = "ELSE" ++ "" := by
    intro x hx
    cases hasElse <;> simp at hx ⊢
    exact hx
  rw [hsplit]
  refine nodup_append.mpr ⟨nodup_singleton _, nodup_append.mpr ⟨hrange "IF",
    nodup_append.mpr ⟨hrange "DO", by cases hasElse <;> simp, ?_⟩, ?_⟩, ?_⟩
  · -- a body of a branch is not the last body
    rintro x hx y hy rfl
    obtain ⟨n, -, rfl⟩ := mem_map.mp hx
    exact append_ne_of_head (by decide : 'D' ≠ 'E') (by rfl) (by rfl) (helse _ hy)
  · -- a condition is no body
    rintro x hx y hy rfl
    obtain ⟨n, -, rfl⟩ := mem_map.mp hx
    rcases mem_append.mp hy with hy | hy
    · obtain ⟨m, -, hm⟩ := mem_map.mp hy
      exact append_ne_of_head (by decide : 'D' ≠ 'I') (by rfl) (by rfl) hm
    · exact append_ne_of_head (by decide : 'I' ≠ 'E') (by rfl) (by rfl) (helse _ hy)
  · -- the place after the block is no socket
    rintro x hx y hy rfl
    rw [mem_singleton] at hx
    subst hx
    have hnext : nextPosition = nextPosition ++ "" := by decide
    rcases mem_append.mp hy with hy | hy
    · obtain ⟨m, -, hm⟩ := mem_map.mp hy
      exact append_ne_of_head (by decide : 'I' ≠ 'n') (by rfl) (by rfl) (hm.trans hnext)
    · rcases mem_append.mp hy with hy | hy
      · obtain ⟨m, -, hm⟩ := mem_map.mp hy
        exact append_ne_of_head (by decide : 'D' ≠ 'n') (by rfl) (by rfl) (hm.trans hnext)
      · exact append_ne_of_head (by decide : 'n' ≠ 'E') (by rfl) (by rfl) (hnext.symm.trans (helse _ hy))

theorem Builtin.nodup_positions (h : Builtin.spec? kind = some spec) {mutation : Table Json}
    {values : List SlotSpec} {statements : List String} (hs : spec.slots mutation = .ok (values, statements)) :
    (nextPosition :: (values.map (·.name) ++ statements)).Nodup := by
  have hfixed : (nextPosition :: (spec.valueSlots.map (·.name) ++ spec.statementSlots)).Nodup := by
    cases kind <;> cases h <;>
      decide
  unfold BlockSpec.slots at hs
  cases hshape : spec.shape with
  | fixed =>
    rw [hshape] at hs
    cases hs
    exact hfixed
  | branches =>
    rw [hshape] at hs
    dsimp only at hs
    split at hs
    · cases hs
    · next count _ =>
      split at hs
      · cases hs
      · injection hs with hs
        have := nodup_branchSlots count.toNat ((mutation.get? "has_else").any Json.isTruthy)
        rw [hs] at this
        exact this

/-! ## Conformity -/

/-- **A block conforms to a specification**: it is the specification of its kind, the sockets are
those it asks for, and every field holds a value that the field takes as it is. -/
structure Node.Conforms (n : Node) (spec : BlockSpec) : Prop where
  known : Builtin.spec? n.kind = some spec
  sockets : spec.slots n.mutation
    = .ok (n.valueSlots.map fun e => ⟨e.1, e.2.check, e.2.default⟩, n.statementSlots.names)
  fieldNames : n.fields.names = spec.fields.map (·.name)
  held : ∀ f ∈ spec.fields, ∃ v, n.fields.get? f.name = some v ∧ f.checked v = .ok v

theorem Node.Conforms.nodup_positions (h : n.Conforms spec) :
    (nextPosition :: (n.valueSlots.names ++ n.statementSlots.names)).Nodup := by
  have hp := Builtin.nodup_positions h.known h.sockets
  rw [List.map_map] at hp
  exact hp

theorem Node.Conforms.nodup_valueSlots (h : n.Conforms spec) : n.valueSlots.names.Nodup :=
  (nodup_append.mp (nodup_cons.mp h.nodup_positions).2).1

theorem Node.Conforms.nodup_statementSlots (h : n.Conforms spec) : n.statementSlots.names.Nodup :=
  (nodup_append.mp (nodup_cons.mp h.nodup_positions).2).2.1

theorem Node.Conforms.slotNames (h : n.Conforms spec) (hshape : spec.shape = .fixed) :
    n.valueSlots.names = spec.valueSlots.map (·.name)
      ∧ n.statementSlots.names = spec.statementSlots := by
  have hs := h.sockets
  unfold BlockSpec.slots at hs
  rw [hshape] at hs
  injection hs with hs
  injection hs with hvalues hstatements
  rw [hvalues, hstatements, List.map_map]
  exact ⟨rfl, rfl⟩

theorem Node.Conforms.slotSpec (h : n.Conforms spec) {slot : String} {s : ValueSlot}
    (hs : n.valueSlots.get? slot = some s) :
    ⟨slot, s.check, s.default⟩ ∈ spec.valueSlots
      ∨ spec.shape = .branches ∧ s.check = .boolean ∧ s.default = "false" := by
  have hmem : (⟨slot, s.check, s.default⟩ : SlotSpec) ∈ n.valueSlots.map fun e => ⟨e.1, e.2.check, e.2.default⟩ :=
    mem_map.mpr ⟨_, mem_of_get? hs, rfl⟩
  have hslots := h.sockets
  unfold BlockSpec.slots at hslots
  split at hslots
  · injection hslots with hslots
    injection hslots with hvalues _
    exact .inl (hvalues ▸ hmem)
  · next hshape =>
    split at hslots
    · cases hslots
    · split at hslots
      · cases hslots
      · injection hslots with hslots
        injection hslots with hvalues _
        rw [← hvalues] at hmem
        obtain ⟨i, -, heq⟩ := mem_map.mp hmem
        injection heq with _ hcheck hdefault
        exact .inr ⟨hshape, hcheck.symm, hdefault.symm⟩

theorem Node.Conforms.branchNames (h : n.Conforms spec) (hshape : spec.shape = .branches) :
    ∃ (count : Nat) (hasElse : Bool), n.valueSlots.names = (List.range (count + 1)).map ("IF" ++ natText ·)
      ∧ n.statementSlots.names = (List.range (count + 1)).map ("DO" ++ natText ·)
        ++ if hasElse then ["ELSE"] else [] := by
  have hs := h.sockets
  unfold BlockSpec.slots at hs
  rw [hshape] at hs
  dsimp only at hs
  split at hs
  · cases hs
  · next count _ =>
    split at hs
    · cases hs
    · injection hs with hs
      injection hs with hvalues hstatements
      refine ⟨count.toNat, (n.mutation.get? "has_else").any Json.isTruthy, ?_, ?_⟩
      · have hnames := congrArg (List.map SlotSpec.name) hvalues
        rw [List.map_map, List.map_map, List.map_map] at hnames
        exact hnames.symm
      · rw [← hstatements, List.map_map]
        rfl

theorem Node.Conforms.branchSlots (h : n.Conforms spec) (hshape : spec.shape = .branches) :
    ∃ (count : Nat) (hasElse : Bool), n.valueSlots.names = (List.range (count + 1)).map ("IF" ++ natText ·)
      ∧ n.statementSlots.names = (List.range (count + 1)).map ("DO" ++ natText ·)
        ++ (if hasElse then ["ELSE"] else [])
      ∧ n.valueSlots.length = count + 1 ∧ n.statementSlots.contains "ELSE" = hasElse := by
  obtain ⟨count, hasElse, hvalues, hstatements⟩ := h.branchNames hshape
  refine ⟨count, hasElse, hvalues, hstatements, ?_, ?_⟩
  · have hlength := congrArg List.length hvalues
    unfold names at hlength
    rwa [List.length_map, List.length_map, length_range] at hlength
  · rw [Bool.eq_iff_iff, Table.contains_iff, hstatements, mem_append]
    constructor
    · rintro (h | h)
      · obtain ⟨i, -, hi⟩ := mem_map.mp h
        have helse : "ELSE" = "ELSE" ++ "" := by decide
        exact absurd (hi.trans helse) (append_ne_of_head (by decide : 'D' ≠ 'E') (by rfl) (by rfl))
      · revert h
        cases hasElse <;> simp
    · rintro rfl
      exact .inr (mem_singleton.mpr rfl)

theorem Node.Conforms.text_mem_options (h : n.Conforms spec) (hf : f ∈ spec.fields)
    (hk : f.kind = .dropdown) : n.text f.name ∈ f.options := by
  obtain ⟨v, hget, hv⟩ := h.held f hf
  unfold FieldSpec.checked at hv
  rw [hk] at hv
  cases v <;> simp only [reduceCtorEq] at hv
  next s =>
    split at hv
    · next hs =>
      unfold Node.text
      rw [hget]
      exact contains_iff_mem.mp hs
    · cases hv

theorem Node.Conforms.identifier (h : n.Conforms spec) (hf : f ∈ spec.fields) (hk : f.kind = .identifier) :
    n.fields.get? f.name = some (.text (n.text f.name))
      ∧ (n.text f.name = "" ∧ f.allowEmpty = true ∨ isName (n.text f.name) = true) := by
  obtain ⟨v, hget, hv⟩ := h.held f hf
  unfold FieldSpec.checked at hv
  rw [hk] at hv
  cases v <;> simp only [reduceCtorEq] at hv
  next s =>
    have htext : n.text f.name = s := by
      unfold Node.text
      rw [hget]
      rfl
    rw [htext]
    refine ⟨hget, ?_⟩
    split at hv
    · next hs =>
      injection hv with hv
      injection hv with hstrip
      rw [hstrip, Bool.or_eq_true, Bool.and_eq_true, String.isEmpty_iff] at hs
      exact hs
    · cases hv

def BlockSpec.HoldsFields (spec : BlockSpec) (fields : Table Json) : Prop :=
  fields.names = spec.fields.map (·.name)
    ∧ ∀ f ∈ spec.fields, ∃ v, fields.get? f.name = some v ∧ f.checked v = .ok v

theorem BlockSpec.HoldsFields.insert {fields : Table Json} (h : spec.HoldsFields fields)
    (hn : (spec.fields.map (·.name)).Nodup) (hf : f ∈ spec.fields) {v : Json}
    (hv : f.checked v = .ok v) : spec.HoldsFields (insert f.name v fields) := by
  refine ⟨?_, fun f' hf' => ?_⟩
  · rw [names_insert_of_mem v (h.1 ▸ mem_map_of_mem hf)]
    exact h.1
  · rw [get?_insert]
    by_cases hname : f.name = f'.name
    · have : f = f' := inj_on_of_nodup_map hn hf hf' hname
      subst this
      exact ⟨v, if_pos rfl, hv⟩
    · rw [if_neg hname]
      exact h.2 f' hf'

theorem Builtin.holdsFields_default (h : Builtin.spec? kind = some spec) :
    spec.HoldsFields (ofEntries (spec.fields.map fun f => (f.name, f.default))) := by
  have hnames : ((spec.fields.map fun f => (f.name, f.default)).map (·.1)).Nodup := by
    rw [List.map_map]
    exact Builtin.nodup_fields h
  rw [ofEntries_of_nodup hnames]
  refine ⟨by unfold names; rw [List.map_map]; rfl, fun f hf => ⟨f.default, ?_, ?_⟩⟩
  · exact (get?_eq_some_iff hnames).mpr (mem_map.mpr ⟨f, hf, rfl⟩)
  · exact Builtin.checked_default h f hf

theorem Graph.admitFields_holdsFields (hn : (spec.fields.map (·.name)).Nodup)
    {given : List (String × Json)} : ∀ {fields fields' : Table Json},
    spec.HoldsFields fields → admitFields spec fields given = .ok fields' → spec.HoldsFields fields' := by
  induction given with
  | nil =>
    intro fields fields' h ha
    cases ha
    exact h
  | cons e rest ih =>
    obtain ⟨name, value⟩ := e
    intro fields fields' h ha
    rw [admitFields] at ha
    split at ha
    · cases ha
    · next f hf =>
      have hmem : f ∈ spec.fields := mem_of_find?_eq_some hf
      have hname : f.name = name := by simpa using find?_some hf
      split at ha
      · cases ha
      · next w hw =>
        refine ih ?_ ha
        rw [← hname]
        exact h.insert hn hmem (FieldSpec.checked_idem hw)

theorem Graph.exists_of_newNode (h : Builtin.spec? kind = some spec) {handle : Handle}
    {i : Graph.BlockInit} (hn : newNode handle spec i = .ok n) :
    ∃ values statements fields, spec.slots i.mutation = .ok (values, statements)
      ∧ admitFields spec (ofEntries (spec.fields.map fun f => (f.name, f.default))) i.fields
        = .ok fields
      ∧ n = { handle, kind, fields
              valueSlots := values.map fun s => (s.name, ⟨s.check, s.default, none⟩)
              statementSlots := statements.map fun s => (s, none)
              comment := i.comment, enabled := i.enabled, mutation := i.mutation, id := i.id } := by
  unfold newNode at hn
  split at hn
  · cases hn
  next values statements hslots =>
  split at hn
  · cases hn
  next fields hfields =>
  have hpos := (nodup_cons.mp (Builtin.nodup_positions h hslots)).2
  have hvalues : ((values.map fun s => (s.name, (⟨s.check, s.default, none⟩ : ValueSlot))).map
      (·.1)).Nodup := by
    rw [List.map_map]
    exact (nodup_append.mp hpos).1
  have hstatements : ((statements.map fun s => (s, (none : Option Handle))).map (·.1)).Nodup := by
    rw [List.map_map]
    simpa only [Function.comp_def, map_id'] using (nodup_append.mp hpos).2.1
  rw [ofEntries_of_nodup hvalues, ofEntries_of_nodup hstatements,
    Builtin.kind_of_spec? h] at hn
  exact ⟨values, statements, fields, hslots, hfields, (Except.ok.inj hn).symm⟩

theorem Graph.newNode_conforms (h : Builtin.spec? kind = some spec) {handle : Handle}
    {i : Graph.BlockInit} (hn : newNode handle spec i = .ok n) :
    n.Conforms spec ∧ n.handle = handle ∧ n.parent = none ∧ n.next = none
      ∧ (∀ e ∈ n.valueSlots, e.2.target = none) ∧ (∀ e ∈ n.statementSlots, e.2 = none) := by
  obtain ⟨values, statements, fields, hslots, hfields, rfl⟩ := exists_of_newNode h hn
  have hheld := admitFields_holdsFields (Builtin.nodup_fields h)
    (Builtin.holdsFields_default h) hfields
  refine ⟨⟨h, ?_, hheld.1, hheld.2⟩, rfl, rfl, rfl, ?_, ?_⟩
  · dsimp only
    rw [hslots]
    unfold names
    simp only [List.map_map, Function.comp_def, map_id']
  · intro e he
    obtain ⟨s, -, rfl⟩ := mem_map.mp he
    rfl
  · intro e he
    obtain ⟨s, -, rfl⟩ := mem_map.mp he
    rfl

end NqcBlocks
