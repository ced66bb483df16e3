import NqcBlocks.Proofs.Graph.Reshaping
import NqcBlocks.Proofs.Program.Disabling
import NqcBlocks.Proofs.Workspace.Growth

/-!
# Documents without the names of the editor

The editor has names of its own for block types, fields and inputs. `translated` puts the names of the kinds
in their place, throughout a document, and states the last branch of a conditional where the type implied it.
Loading the translated document does step by step what loading the document does (`Shadows`), to the same
graph but for the order in which the shape parameters of a block stand (`inOrder`).
-/

namespace NqcBlocks

open Json Editor

namespace Workspace

/-! ## Translating -/

def typeName : Json → Json
  | .text type => .text (((Palette.types.get? type).map fun palette => palette.kind.tag).getD type)
  | j => j

def inObject (f : Table Json → Table Json) : Json → Json
  | .object members => .object (f members)
  | j => j

def fieldNames (palette : PaletteEntry) : Json → Json :=
  inObject (List.map fun e => (palette.field e.1, e.2))

def statingElse (type : Json) (members : Table Json) : Table Json :=
  if type.text? = some "nqc_se_faca_senao" then
    let state := membersIn (member members "extraState")
    if state.contains "hasElse" then members
    else members.insert "extraState" (.object (state ++ [("hasElse", .bool true)]))
  else members

mutual
def translated : Json → Json
  | .object members => .object (statingElse (member members "type")
      (translatedMembers (paletteOf (.object members)) members))
  | j => j
def translatedMembers (palette : PaletteEntry) : List (String × Json) → Table Json
  | [] => []
  | (key, value) :: rest =>
    (key, if key = "type" then typeName value
      else if key = "fields" then fieldNames palette value
      else if key = "inputs" then translatedInputs palette value
      else if key = "next" then translatedConnection value
      else value) :: translatedMembers palette rest
def translatedInputs (palette : PaletteEntry) : Json → Json
  | .object inputs => .object (translatedSlots palette inputs)
  | j => j
def translatedSlots (palette : PaletteEntry) : List (String × Json) → Table Json
  | [] => []
  | (input, connection) :: rest =>
    (palette.input input, translatedConnection connection) :: translatedSlots palette rest
def translatedConnection : Json → Json
  | .object ends => .object (translatedEnds ends)
  | j => j
def translatedEnds : List (String × Json) → Table Json
  | [] => []
  | (key, entry) :: rest =>
    (key, if key = "block" ∨ key = "shadow" then translated entry else entry) :: translatedEnds rest
end

def translatedList : Json → Json
  | .list entries => .list (entries.map translated)
  | j => j

def withBlocks (f : Json → Json) (members : Table Json) : Table Json :=
  members.map fun e => (e.1, if e.1 = "blocks" then f e.2 else e.2)

def translatedWorkspace : Json → Json :=
  inObject (withBlocks fun
    | .object inner => .object (withBlocks translatedList inner)
    | j => translatedList j)

/-! ## What stands where in a translated document -/

section Members

variable {palette : PaletteEntry} {members : Table Json} {key : String} {connection entry : Json}

def translatedMember (palette : PaletteEntry) (key : String) (value : Json) : Json :=
  if key = "type" then typeName value
  else if key = "fields" then fieldNames palette value
  else if key = "inputs" then translatedInputs palette value
  else if key = "next" then translatedConnection value
  else value

theorem translatedMembers_eq_map (palette : PaletteEntry) : ∀ members : Table Json,
    translatedMembers palette members = members.map fun e => (e.1, translatedMember palette e.1 e.2)
  | [] => rfl
  | (key, value) :: rest => by
    rw [translatedMembers, translatedMembers_eq_map palette rest]
    rfl

theorem get?_statingElse (type : Json) (h : key ≠ "extraState") :
    (statingElse type members).get? key = members.get? key := by
  unfold statingElse
  dsimp only
  split_ifs
  · rfl
  · rw [Table.get?_insert, if_neg h.symm]
  · rfl

def membersOfTranslated (members : Table Json) : Table Json :=
  statingElse (member members "type") (translatedMembers (paletteOf (.object members)) members)

theorem translated_object (members : Table Json) :
    translated (.object members) = .object (membersOfTranslated members) := by
  rw [translated]
  rfl

theorem get?_membersOfTranslated (members : Table Json) (key : String) (h : key ≠ "extraState") : (membersOfTranslated members).get? key
    = (members.get? key).map (translatedMember (paletteOf (.object members)) key) := by
  unfold membersOfTranslated
  rw [get?_statingElse _ h, translatedMembers_eq_map, Table.get?_mapValues]

theorem member_membersOfTranslated (members : Table Json) (key : String) (h : key ≠ "extraState") :
    member (membersOfTranslated members) key
      = translatedMember (paletteOf (.object members)) key (member members key) := by
  unfold member
  rw [get?_membersOfTranslated members key h]
  cases members.get? key with
  | some value => rfl
  | none =>
    unfold translatedMember
    split_ifs <;> rfl

theorem get?_membersOfTranslated_of_ne (h : key ∉ ["type", "fields", "inputs", "next", "extraState"]) :
    (membersOfTranslated members).get? key = members.get? key := by
  simp only [List.mem_cons, List.not_mem_nil, or_false, not_or] at h
  obtain ⟨htype, hfields, hinputs, hnext, hstate⟩ := h
  have hsame : translatedMember (paletteOf (.object members)) key = id := by
    funext value
    rw [translatedMember, if_neg htype, if_neg hfields, if_neg hinputs, if_neg hnext]
    rfl
  rw [get?_membersOfTranslated members key hstate, hsame, Option.map_id]
  rfl

theorem isTruthy_translated (entry : Json) : (translated entry).isTruthy = entry.isTruthy := by
  cases entry with
  | null | bool | number | text | list => rfl
  | object members =>
    cases members with
    | nil => rfl
    | cons e rest =>
      rw [translated, translatedMembers_eq_map, List.map_cons, statingElse]
      dsimp only
      split
      · split
        · rfl
        · rw [Table.insert]
          split <;> rfl
      · rfl

theorem truthy?_translated (entry : Json) : (translated entry).truthy? = entry.truthy?.map translated := by
  unfold truthy?
  rw [isTruthy_translated]
  split <;> rfl

theorem nonNull?_translated (entry : Json) : (translated entry).nonNull? = entry.nonNull?.map translated := by
  cases entry with
  | null => rfl
  | bool | number | text | list => rfl
  | object members =>
    rw [translated_object]
    rfl

theorem get?_translatedEnds {ends : Table Json} (h : key = "block" ∨ key = "shadow") :
    (translatedEnds ends).get? key = (ends.get? key).map translated := by
  induction ends with
  | nil => rfl
  | cons e rest ih =>
    obtain ⟨k, entry⟩ := e
    rw [translatedEnds, Table.get?_cons, Table.get?_cons, ih]
    split
    · next hk =>
      rw [if_pos (hk ▸ h)]
      rfl
    · rfl

theorem linked_translated {behind : Option Json} (h : linked connection = .ok behind) :
    linked (translatedConnection connection) = .ok (behind.map translated) := by
  cases connection with
  | null | bool | number | text | list =>
    unfold linked at h
    split at h
    · next hfalsy =>
      cases h
      exact if_pos hfalsy
    · cases h
  | object ends =>
    have htruthy : (object (translatedEnds ends)).isTruthy = (object ends).isTruthy := by
      cases ends with
      | nil => rfl
      | cons e rest =>
        obtain ⟨key, entry⟩ := e
        rw [translatedEnds]
        rfl
    unfold linked at h
    rw [translatedConnection, linked, htruthy]
    dsimp only at h ⊢
    split at h
    · next hfalsy =>
      cases h
      exact if_pos hfalsy
    · next htrue =>
      rw [if_neg htrue, get?_translatedEnds (.inl rfl), get?_translatedEnds (.inr rfl)]
      have hblock : ((Table.get? "block" ends).map translated).bind truthy?
          = ((Table.get? "block" ends).bind truthy?).map translated := by
        cases Table.get? "block" ends with
        | none => rfl
        | some entry => exact truthy?_translated entry
      have hshadow : ((Table.get? "shadow" ends).map translated).bind nonNull?
          = ((Table.get? "shadow" ends).bind nonNull?).map translated := by
        cases Table.get? "shadow" ends with
        | none => rfl
        | some entry => exact nonNull?_translated entry
      rw [hblock, hshadow]
      split at h
      · next hentry =>
        cases h
        rw [hentry]
        rfl
      · next hentry =>
        cases h
        rw [hentry]
        rfl

end Members

/-! ## Shape parameters -/

def inOrder (mutation : Table Json) : Table Json :=
  (mutation.get? "else_if_count").toList.map (("else_if_count", ·))
    ++ (mutation.get? "has_else").toList.map (("has_else", ·))
    ++ mutation.filter fun e => e.1 != "else_if_count" && e.1 != "has_else"

theorem get?_inOrder (mutation : Table Json) (key : String) : (inOrder mutation).get? key = mutation.get? key := by
  have hrest : ∀ t : Table Json, Table.get? key (t.filter fun e => e.1 != "else_if_count" && e.1 != "has_else")
        = if key = "else_if_count" ∨ key = "has_else" then none else t.get? key := by
    intro t
    induction t with
    | nil => simp
    | cons e rest ih =>
      obtain ⟨k, v⟩ := e
      rw [List.filter_cons, Table.get?_cons]
      split
      · rw [Table.get?_cons, ih]
        grind
      · rw [ih]
        grind
  have hone : ∀ k, Table.get? key ((mutation.get? k).toList.map ((k, ·)))
      = if k = key then mutation.get? k else none := by
    intro k
    cases mutation.get? k with
    | none => simp
    | some v => exact Table.get?_cons key k v []
  unfold inOrder
  rw [Table.get?_append, Table.get?_append, hone, hone, hrest]
  grind

def statedShape (count hasElse : Option Json) (implied : Table Json) : Table Json :=
  let withCount := match count with
    | none => implied
    | some n => implied.insert "else_if_count" n
  match hasElse with
  | none => withCount
  | some value => withCount.insert "has_else" (.bool value.isTruthy)

def readCount (id state : Json) : Except LoadError (Option Json) := do
  match ← stateValue? state "elseIfCount" with
  | none => pure none
  | some value => pure (some (← branchCount id value))

variable {members m : Table Json}

theorem readMutation_eq_ok_iff {implied : Table Json} : readMutation members implied = .ok m ↔
    ∃ count hasElse,
      readCount (member members "id") (((member members "extraState").truthy?).getD (.object [])) = .ok count
      ∧ stateValue? (((member members "extraState").truthy?).getD (.object [])) "hasElse" = .ok hasElse
      ∧ statedShape count hasElse implied = m := by
  unfold readMutation readCount
  dsimp only [bind, Except.bind, pure, Except.pure]
  generalize ((member members "extraState").truthy?).getD (.object []) = state
  rcases stateValue? state "elseIfCount" with _ | _ | value
  · simp
  · rcases stateValue? state "hasElse" with _ | _ | _ <;> simp [statedShape]
  · dsimp only
    rcases branchCount (member members "id") value with _ | n
    · simp
    · rcases stateValue? state "hasElse" with _ | _ | _ <;> simp [statedShape]

theorem stateValue?_object (members : Table Json) (key : String) :
    stateValue? (((object members).truthy?).getD (.object [])) key = .ok (members.get? key) := by
  cases members <;> rfl

theorem mutation_entry (type : String) : (Palette.entry type).mutation
    = if type = "nqc_se_faca_senao" then [("has_else", .bool true)] else [] := by
  split
  · next h =>
    subst h
    rfl
  · next h =>
    unfold Palette.entry
    cases hget : Palette.types.get? type with
    | none => rfl
    | some palette =>
      have hall : ∀ e ∈ Palette.types, e.1 = "nqc_se_faca_senao" ∨ e.2.mutation.isEmpty = true := by decide
      rcases hall _ (Table.mem_of_get? hget) with htype | hempty
      · exact absurd htype h
      · exact List.isEmpty_iff.mp hempty

theorem member_extraState (members : Table Json) (palette : PaletteEntry) :
    member (translatedMembers palette members) "extraState" = member members "extraState" := by
  unfold member
  rw [translatedMembers_eq_map, Table.get?_mapValues]
  cases members.get? "extraState" <;> rfl

theorem readMutation_translated
    (h : readMutation members (paletteOf (.object members)).mutation = .ok m) :
    readMutation (membersOfTranslated members) [] = .ok (inOrder m) := by
  have hid : member (membersOfTranslated members) "id" = member members "id" :=
    member_membersOfTranslated members _ (by decide)
  obtain ⟨count, hasElse, hcount, hhasElse, rfl⟩ := readMutation_eq_ok_iff.mp h
  rw [readMutation_eq_ok_iff, hid]
  have hmutation : (paletteOf (.object members)).mutation
      = if (member members "type").text? = some "nqc_se_faca_senao" then [("has_else", .bool true)] else [] := by
    unfold paletteOf
    rw [mutation_entry, membersIn]
    cases (member members "type").text? with
    | none => rfl
    | some type => simp
  rw [hmutation]
  by_cases htype : (member members "type").text? = some "nqc_se_faca_senao"
  · have helse := stateValue?_eq hhasElse
    rw [if_pos htype, membersOfTranslated, statingElse, if_pos htype, member_extraState]
    dsimp only
    by_cases hset : (membersIn (member members "extraState")).contains "hasElse" = true
    · obtain ⟨value, rfl⟩ : ∃ value, hasElse = some value := by
        rw [helse, ← Option.isSome_iff_exists]
        exact hset
      rw [if_pos hset, member_extraState]
      exact ⟨count, some value, hcount, hhasElse, by cases count <;> rfl⟩
    · -- The entry says nothing about a last branch, and its type does.
      obtain rfl : hasElse = none := by
        rw [helse, ← Option.not_isSome_iff_eq_none]
        exact hset
      have hstate : member (Table.insert "extraState"
            (.object (membersIn (member members "extraState") ++ [("hasElse", .bool true)]))
            (translatedMembers (paletteOf (.object members)) members)) "extraState"
          = .object (membersIn (member members "extraState") ++ [("hasElse", .bool true)]) := by
        rw [member, Table.get?_insert, if_pos rfl, Option.getD_some]
      rw [if_neg hset, hstate]
      refine ⟨count, some (.bool true), ?_, ?_, by cases count <;> rfl⟩
      · obtain ⟨value, hvalue, hcount⟩ := Graph.exists_of_bind_eq_ok hcount
        rw [readCount, stateValue?_object, Table.get?_append, ← stateValue?_eq hvalue, Table.get?_cons, if_neg (by decide)]
        exact (congrArg (fun v => Except.ok v >>= _) Option.or_none).trans hcount
      · rw [stateValue?_object, Table.get?_append, ← helse]
        rfl
  · rw [if_neg htype, membersOfTranslated, statingElse, if_neg htype, member_extraState]
    exact ⟨count, hasElse, hcount, hhasElse, by cases count <;> cases hasElse <;> rfl⟩

/-! ## Entries -/

theorem entry_typeName (type : String) :
    Palette.entry (((Palette.types.get? type).map fun palette => palette.kind.tag).getD type)
      = .plain (Palette.entry type).kind := by
  unfold Palette.entry
  cases hget : Palette.types.get? type with
  | none =>
    rw [Option.map_none, Option.getD_none, hget]
    rfl
  | some palette =>
    have hall : ∀ e ∈ Palette.types, Palette.types.get? e.2.kind.tag = none
        ∧ BlockKind.ofTag e.2.kind.tag = e.2.kind := by decide
    obtain ⟨hnone, htag⟩ := hall _ (Table.mem_of_get? hget)
    rw [Option.map_some, Option.getD_some, hnone, Option.getD_none, htag]
    rfl

theorem membersOf_inObject {f : Table Json → Table Json} (hf : f [] = []) {j : Json}
    (h : membersOf j = .ok members) : membersOf (inObject f j) = .ok (f members) := by
  cases j with
  | object inner =>
    rw [membersOf_object] at h
    cases h
    exact membersOf_object _
  | null | bool | number | text | list =>
    cases eq_nil_of_membersOf (by simp) h
    rw [inObject, h, hf]
    simp

theorem translatedInputs_eq (palette : PaletteEntry) (j : Json) :
    translatedInputs palette j = inObject (translatedSlots palette) j := by
  cases j with
  | object members => rw [translatedInputs, inObject]
  | null | bool | number | text | list => rfl

theorem readFields_renamed {spec : BlockSpec} {palette : PaletteEntry} {kind : BlockKind} {id : Json}
    (stated fields : Table Json) :
    readFields spec (.plain kind) id fields (stated.map fun e => (palette.field e.1, e.2))
      = readFields spec palette id fields stated := by
  induction stated generalizing fields with
  | nil => rfl
  | cons e rest ih =>
    rw [List.map_cons, readFields, readFields]
    exact bind_congr fun value => ih _

def BlockEntry.translated (read : BlockEntry) : BlockEntry where
  type := typeName read.type
  id := read.id
  palette := .plain read.palette.kind
  init := { read.init with mutation := inOrder read.init.mutation }

theorem readEntry_translated {catalog : Catalog} {read : BlockEntry}
    (h : readEntry catalog members = .ok read) : read.palette = paletteOf (.object members)
      ∧ readEntry catalog (membersOfTranslated members) = .ok read.translated := by
  have hid : member (membersOfTranslated members) "id" = member members "id" :=
    member_membersOfTranslated members _ (by decide)
  have hcomment : readComment (membersOfTranslated members) = readComment members := by
    unfold readComment
    rw [member_membersOfTranslated members "comment" (by decide),
      member_membersOfTranslated members "icons" (by decide)]
    rfl
  have henabled : readEnabled (membersOfTranslated members) = readEnabled members := by
    unfold readEnabled
    rw [member_membersOfTranslated members "disabledReasons" (by decide), get?_membersOfTranslated_of_ne (by decide)]
    rfl
  obtain ⟨s, spec, mutation, stated, fields, comment, htype, hspec, hmutation, hstated, hfields, hcommented, rfl⟩ :=
    readEntry_eq_ok_iff.mp h
  have hpalette := paletteOf_object htype
  refine ⟨hpalette.symm, ?_⟩
  rw [readEntry_eq_ok_iff, hid, hcomment, henabled, get?_membersOfTranslated members "type" (by decide), htype]
  refine ⟨_, spec, inOrder mutation, stated.map fun e => ((Palette.entry s).field e.1, e.2), fields, comment, rfl, ?_⟩
  rw [entry_typeName]
  refine ⟨hspec, readMutation_translated (hpalette ▸ hmutation), ?_, (readFields_renamed stated []).trans hfields,
    hcommented, rfl⟩
  rw [member_membersOfTranslated members _ (by decide), hpalette]
  exact membersOf_inObject rfl hstated

end Workspace

/-! ## Loading, side by side -/

def Editor.ordered (e : Editor) : Editor := { e with graph := e.graph.reshape Workspace.inOrder }

theorem Editor.commit_ordered {e : Editor} (he : e.validators = 0) (edit : Edit) :
    e.ordered.commit (edit.reshape Workspace.inOrder) = (e.commit edit).ordered := by
  have hloop : ∀ (events : List Event) {e : Editor}, e.validators = 0 →
      events.foldl tell e.ordered = (events.foldl tell e).ordered := by
    intro events
    induction events with
    | nil => exact fun _ => rfl
    | cons event events ih =>
      intro e he
      have hstep : e.ordered.tell event = (e.tell event).ordered := by
        have hvalidators : e.ordered.validators = 0 := he
        unfold Editor.tell
        rw [hvalidators, he]
        simp only [revalidate, ite_self]
        rfl
      rw [List.foldl_cons, List.foldl_cons, hstep]
      exact ih he
  have hevents : (edit.reshape Workspace.inOrder).notices.map (·.event) = edit.notices.map (·.event) := by
    rw [Edit.reshape, List.map_map]
    rfl
  unfold commit
  rw [hevents]
  exact hloop _ (e := { e with graph := edit.graph }) he

namespace Workspace

section Shadows

variable {α β γ : Type} {entry : Json} {read : BlockEntry} {x y : Load α}

def Shadows (x y : Load α) : Prop := ∀ ⦃e : Editor⦄ ⦃a : α⦄ ⦃e' : Editor⦄, e.validators = 0 →
  Gives x e a e' → e'.validators = 0 ∧ Gives y e.ordered a e'.ordered

theorem Shadows.pure (a : α) : Shadows (Pure.pure a) (Pure.pure a) := by
  intro e b e' he hg
  obtain ⟨rfl, rfl⟩ := gives_pure_iff.mp hg
  exact ⟨he, rfl⟩

theorem Shadows.bind {f g : α → Load β} (h : Shadows x y) (hf : ∀ a, Shadows (f a) (g a)) :
    Shadows (x >>= f) (y >>= g) := by
  intro e b e' he hg
  obtain ⟨a, e₁, ha, hb⟩ := gives_bind_iff.mp hg
  obtain ⟨he₁, ha⟩ := h he ha
  obtain ⟨he', hb⟩ := hf a he₁ hb
  exact ⟨he', gives_bind_iff.mpr ⟨a, _, ha, hb⟩⟩

theorem Shadows.lift_bind {r : Except LoadError α} {r' : Except LoadError γ} {f : α → Load β} {g : γ → Load β}
    (h : ∀ a, r = .ok a → ∃ a', r' = .ok a' ∧ Shadows (f a) (g a')) : Shadows (liftM r >>= f) (liftM r' >>= g) := by
  intro e b e' he hg
  obtain ⟨a, ha, hg⟩ := gives_lift_bind_iff.mp hg
  obtain ⟨a', ha', hshadows⟩ := h a ha
  obtain ⟨he', hg⟩ := hshadows he hg
  exact ⟨he', gives_lift_bind_iff.mpr ⟨a', ha', hg⟩⟩

theorem Shadows.get_bind {f g : Editor → Load β} (h : ∀ e, Shadows (f e) (g e.ordered)) :
    Shadows (get >>= f) (get >>= g) :=
  fun e _ _ he hg => h e he hg

theorem Shadows.ite {x' y' : Load α} {b b' : Bool} (hb : b' = b) (h : Shadows x y) (h' : Shadows x' y') :
    Shadows (if b then x else x') (if b' then y else y') := by
  subst hb
  split <;> assumption

theorem shadows_createBlock (read : BlockEntry) : Shadows (createBlock read) (createBlock read.translated) := by
  intro e h e' he hg
  rw [createBlock, gives_get_bind_iff, create] at hg
  cases hcreate : e.graph.create read.palette.kind.tag read.init with
  | error cause =>
    rw [hcreate] at hg
    exact absurd hg not_gives_throw
  | ok created =>
    rw [hcreate] at hg
    cases hg
    obtain ⟨h, edit⟩ := created
    refine ⟨(e.commit_of_unwatched he edit).2, gives_bind_iff.mpr ⟨e.ordered, e.ordered, rfl, ?_⟩⟩
    have hordered : e.ordered.graph.create read.translated.palette.kind.tag read.translated.init
        = .ok (h, edit.reshape inOrder) := Graph.create_reshape get?_inOrder hcreate
    unfold create
    rw [hordered]
    dsimp only [Except.map]
    rw [commit_ordered he]
    rfl

theorem shadows_connect {command : Command} {f : Graph → Except GraphError Edit}
    (hcommand : ∀ e : Editor, e.perform command = e.apply f)
    (hf : ∀ {g}, Graph.Tracks (Edit.reshape inOrder) (f g) (f (g.reshape inOrder))) (entry : Json) :
    Shadows (connect entry command) (connect (translated entry) command) := by
  intro e a e' he hg
  cases entry with
  | null | bool | number | text | list =>
    cases hg
    exact ⟨he, rfl⟩
  | object members =>
    obtain ⟨edit, hedit, hlost, rfl⟩ := (gives_connect_iff (hcommand e)).mp hg
    refine ⟨(e.commit_of_unwatched he edit).2, ?_⟩
    rw [translated_object]
    exact (gives_connect_iff (hcommand _)).mpr ⟨edit.reshape inOrder, hf edit hedit, hlost, (commit_ordered he edit).symm⟩

/-- **What a translated entry is built into.** -/
structure BuildsAlike (entry : Json) : Prop where
  block : Shadows (buildBlock entry) (buildBlock (translated entry))
  next : ∀ previous, Shadows (buildNext previous entry) (buildNext previous (translated entry))

theorem BuildsAlike.chain (h : BuildsAlike entry) : Shadows (buildChain entry) (buildChain (translated entry)) := by
  rw [buildChain, buildChain]
  exact h.block.bind fun head => (h.next head).bind fun _ => .pure head

theorem shadows_plug {below : Json} (h : BuildsAlike below) (owner : Handle) (input : String) :
    Shadows (plug read owner input (some below))
      (plug read.translated owner (read.palette.input input) (some (translated below))) := by
  rw [plug, plug]
  refine .get_bind fun e => ?_
  have hnode : ((e.ordered.graph.get? owner).getD { handle := owner, kind := read.translated.palette.kind })
      = ((e.graph.get? owner).getD { handle := owner, kind := read.palette.kind }).reshape inOrder := by
    rw [ordered, Graph.get?_reshape]
    cases e.graph.get? owner <;> rfl
  dsimp only
  rw [hnode]
  refine .ite rfl (h.block.bind fun child => ?_) (.ite rfl (h.chain.bind fun child => ?_) ?_)
  · exact shadows_connect (f := (·.connectValue owner _ child)) (fun _ => rfl) Graph.tracks_connectValue below
  · exact shadows_connect (f := (·.connectStatement owner _ child)) (fun _ => rfl)
      Graph.tracks_connectStatement below
  · exact fun _ _ _ _ hg => absurd hg not_gives_throw

theorem shadows_buildInputs {inputs : List (String × Json)}
    (hbelow : ∀ i ∈ inputs, ∀ below, behind i.2 = some below → BuildsAlike below) (owner : Handle) :
    Shadows (buildInputs read owner inputs)
      (buildInputs read.translated owner (translatedSlots read.palette inputs)) := by
  induction inputs with
  | nil =>
    rw [translatedSlots, buildInputs, buildInputs]
    exact .pure ()
  | cons i rest ih =>
    obtain ⟨input, connection⟩ := i
    obtain ⟨hfirst, hothers⟩ := List.forall_mem_cons.mp hbelow
    rw [translatedSlots, buildInputs_cons, buildInputs_cons]
    refine .lift_bind fun linked hlinked => ⟨_, linked_translated hlinked, .bind ?_ fun _ => ih hothers⟩
    cases linked with
    | none => exact .pure ()
    | some below => exact shadows_plug (hfirst below (eq_behind hlinked).symm) owner input

theorem shadows_buildBlock (hbelow : ∀ i ∈ membersIn (member (membersIn entry) "inputs"), ∀ below,
    behind i.2 = some below → BuildsAlike below) : Shadows (buildBlock entry) (buildBlock (translated entry)) := by
  intro e h e' he hg
  obtain ⟨members, rfl⟩ : ∃ members, entry = .object members := ⟨_, eq_object_of_gives hg⟩
  rw [buildBlock_object] at hg
  rw [translated_object, buildBlock_object]
  refine Shadows.get_bind (fun e => .lift_bind fun read hread => ?_) he hg
  obtain ⟨hpalette, hread⟩ := readEntry_translated hread
  refine ⟨_, hread, (shadows_createBlock read).bind fun h => .lift_bind fun inputs hmembers => ?_⟩
  rw [membersIn, ← eq_membersIn hmembers] at hbelow
  refine ⟨_, ?_, (shadows_buildInputs hbelow h).bind fun _ => .pure h⟩
  have htranslated : member (membersOfTranslated members) "inputs"
      = translatedInputs (paletteOf (.object members)) (member members "inputs") :=
    member_membersOfTranslated members _ (by decide)
  rw [htranslated, translatedInputs_eq, hpalette]
  exact membersOf_inObject (by rw [translatedSlots]) hmembers

theorem next_translated (entry : Json) : member (membersIn (translated entry)) "next"
    = translatedConnection (member (membersIn entry) "next") := by
  cases entry with
  | null | bool | number | text | list => rfl
  | object members =>
    rw [translated_object]
    exact member_membersOfTranslated members _ (by decide)

theorem shadows_buildNext (hfollowing : ∀ following,
    behind (member (membersIn entry) "next") = some following → BuildsAlike following) (previous : Handle) :
    Shadows (buildNext previous entry) (buildNext previous (translated entry)) := by
  rw [buildNext_eq, buildNext_eq, next_translated]
  refine .lift_bind fun following? hlinked => ⟨_, linked_translated hlinked, ?_⟩
  cases following? with
  | none => exact .pure ()
  | some following =>
    have hbuilds := hfollowing following (eq_behind hlinked).symm
    exact hbuilds.block.bind fun h => (shadows_connect (f := (·.connectNext previous h)) (fun _ => rfl)
      Graph.tracks_connectNext following).bind fun _ => hbuilds.next h

theorem buildsAlike (entry : Json) : BuildsAlike entry := by
  induction entry using induct_entry with
  | step entry hbelow hfollowing => exact ⟨shadows_buildBlock hbelow, shadows_buildNext hfollowing⟩

theorem shadows_buildAll (entries : List Json) : Shadows (buildAll entries) (buildAll (entries.map translated)) := by
  induction entries with
  | nil => exact .pure ()
  | cons entry rest ih =>
    rw [List.map_cons, buildAll, buildAll, discard_eq, discard_eq]
    exact ((buildsAlike entry).chain.bind fun _ => .pure ()).bind fun _ => ih

end Shadows

/-! ## Workspaces -/

theorem get?_withBlocks (f : Json → Json) (members : Table Json) :
    (withBlocks f members).get? "blocks" = (members.get? "blocks").map f :=
  Table.get?_mapValues (fun key value => if key = "blocks" then f value else value) "blocks" members

theorem topEntries_translated {workspace : Json} {entries : List Json} (h : topEntries workspace = .ok entries) :
    topEntries (translatedWorkspace workspace) = .ok (entries.map translated) := by
  cases workspace with
  | null | bool | number | text | list => cases h
  | object members =>
    unfold topEntries at h ⊢
    rw [translatedWorkspace, inObject]
    dsimp only at h ⊢
    rw [get?_withBlocks]
    cases hblocks : Table.get? "blocks" members with
    | none =>
      rw [hblocks] at h
      cases h
      rfl
    | some blocks =>
      rw [hblocks] at h
      cases blocks with
      | list =>
        cases h
        rfl
      | object inner =>
        dsimp only [Option.getD_some, Option.map_some] at h ⊢
        rw [get?_withBlocks]
        cases hinner : Table.get? "blocks" inner with
        | none =>
          rw [hinner] at h
          cases h
          rfl
        | some blocks =>
          rw [hinner] at h
          cases blocks with
          | list =>
            cases h
            rfl
          | null | bool | number | text | object => cases h
      | null | bool | number | text => cases h

theorem toGraph_translated {workspace : Json} {g : Graph} (h : toGraph workspace = .ok g) :
    toGraph (translatedWorkspace workspace) = .ok (g.reshape inOrder) := by
  obtain ⟨entries, e, htop, -, hg, rfl⟩ := exists_of_toGraph h
  obtain ⟨-, hg⟩ := shadows_buildAll entries (e := {}) rfl hg
  have hempty : ordered {} = {} := by
    unfold ordered Graph.reshape Graph.mapNodes
    simp [Graph.empty]
  rw [hempty] at hg
  have hrun : (buildAll (entries.map translated)).run.run {} = (.ok (), e.ordered) := hg
  unfold toGraph loadInto load
  rw [topEntries_translated htop]
  dsimp only
  rw [hrun]
  rfl

end Workspace

def Node.Same (n n' : Node) : Prop :=
  n' = { n with mutation := n'.mutation } ∧ ∀ key, n'.mutation.get? key = n.mutation.get? key

/-- **Equal graphs**: the same blocks under the same handles, with the same links. -/
structure Graph.Same (g g' : Graph) : Prop where
  catalog : g'.catalog = g.catalog
  nextHandle : g'.nextHandle = g.nextHandle
  nodes : List.Forall₂ Node.Same g.nodes g'.nodes

theorem Graph.same_reshape {σ : Table Json → Table Json} (hσ : ∀ m key, (σ m).get? key = m.get? key)
    (g : Graph) : g.Same (g.reshape σ) where
  catalog := rfl
  nextHandle := congrArg (· + 1) size_cells_reshape
  nodes := by
    rw [reshape, nodes_mapNodes, List.forall₂_map_right_iff, List.forall₂_same]
    exact fun n _ => ⟨rfl, hσ n.mutation⟩

theorem Graph.userNames_reshape (σ : Table Json → Table Json) (g : Graph) :
    (g.reshape σ).userNames = g.userNames := by
  have hidentifiers : (g.reshape σ).identifiers = g.identifiers := by
    unfold identifiers reshape
    rw [nodes_mapNodes, List.flatMap_map]
    rfl
  unfold userNames
  rw [hidentifiers]

namespace Workspace

/-- **The names of the editor and those of the kinds load alike.** A workspace that loads still does when every
name of the editor in it is replaced by what it stands for and the last branch of a conditional is stated where
the type implied it. The graph is equal and so is the program. An entry may use both names for a field or an
input, because they stay in the order in which they are read, and its extra state may be anything that the
workspace loads with. -/
theorem loads_alike_translated {workspace : Json} {g : Graph} (h : toGraph workspace = .ok g) :
    ∃ g', toGraph (translatedWorkspace workspace) = .ok g' ∧ g.Same g'
      ∧ ∀ options, Generation.SameProgram g g' options := by
  have htranslated := toGraph_translated h
  have halike := Graph.prunesAlike_reshape (forest_of_toGraph h) (forest_of_toGraph htranslated)
  refine ⟨g.reshape inOrder, htranslated, g.same_reshape get?_inOrder, fun options => ?_⟩
  refine Generation.sameProgram_of_prunesAlike halike (fun name => ?_) options
  rw [Graph.userNames_reshape]

def impliedElse : Json := .object [("blocks", .object [("blocks", .list [
  .object [("type", .text "nqc_tarefa_principal"), ("inputs", .object [("STATEMENTS", .object [("block", .object [
    ("type", .text "nqc_se_faca_senao"), ("extraState", .object [("elseIfCount", .int 1)]),
    ("inputs", .object [
      ("CONDICAO", .object [("block", .object [("type", .text "nqc_booleano")])]),
      ("DO", .object [("block", .object [("type", .text "nqc_ligar_motor"),
        ("fields", .object [("SENTIDO", .text "REV")])])])])])])])]])])]

def statedElse : Json := .object [("blocks", .object [("blocks", .list [
  .object [("type", .text "main_task"), ("inputs", .object [("STATEMENTS", .object [("block", .object [
    ("type", .text "if"), ("extraState", .object [("elseIfCount", .int 1), ("hasElse", .bool true)]),
    ("inputs", .object [
      ("IF0", .object [("block", .object [("type", .text "boolean")])]),
      ("DO0", .object [("block", .object [("type", .text "motor_on"),
        ("fields", .object [("DIRECTION", .text "REV")])])])])])])])]])])]

theorem loads_alike_translated_else : translatedWorkspace impliedElse = statedElse
    ∧ ∃ g g', toGraph impliedElse = .ok g ∧ toGraph statedElse = .ok g' ∧ g.Same g'
      ∧ g.nodes.map (·.mutation.names) = [[], ["has_else", "else_if_count"], [], []]
      ∧ g'.nodes.map (·.mutation.names) = [[], ["else_if_count", "has_else"], [], []]
      ∧ Generation.SameProgram g g' {} := by
  have hstated : translatedWorkspace impliedElse = statedElse := by rfl
  have hnames : (toGraph impliedElse).toOption.map (fun g => g.nodes.map (·.mutation.names))
        = some [[], ["has_else", "else_if_count"], [], []]
      ∧ (toGraph statedElse).toOption.map (fun g => g.nodes.map (·.mutation.names))
        = some [[], ["else_if_count", "has_else"], [], []] := by
    decide +kernel
  cases hload : toGraph impliedElse with
  | error cause =>
    rw [hload] at hnames
    cases hnames.1
  | ok g =>
    obtain ⟨g', hload', hsame, hprogram⟩ := loads_alike_translated hload
    rw [hstated] at hload'
    rw [hload, hload'] at hnames
    exact ⟨hstated, g, g', rfl, hload', hsame, Option.some.inj hnames.1, Option.some.inj hnames.2, hprogram {}⟩

end Workspace

end NqcBlocks
