import NqcBlocks.Proofs.Graph.Revision

/-!
# Graphs with other names

The graph in which every name of a variable and of a task is spelled differently, and everything else is
as it was. Names are what the fields `VAR` and `NAME` hold: `VAR` is a field of the blocks that set or get
a variable, and `NAME` of tasks and of the blocks that start or stop one. An empty name stays empty.
-/

namespace NqcBlocks

open Node

variable {f : NameUse → String → String}

def respellText (f : String → String) (s : String) : String := if s = "" then "" else f s

def Json.respell (f : String → String) : Json → Json
  | .text s => .text (respellText f s)
  | j => j

def nameUse? (field : String) : Option NameUse :=
  if field = "VAR" then some .variable else if field = "NAME" then some .task else none

def respellField (f : NameUse → String → String) (field : String) (value : Json) : Json :=
  match nameUse? field with
  | some use => value.respell (f use)
  | none => value

def Node.respell (f : NameUse → String → String) (n : Node) : Node :=
  { n with fields := n.fields.map fun e => (e.1, respellField f e.1 e.2) }

theorem respellText_id (s : String) : respellText (fun name => name) s = s := by
  unfold respellText
  split
  · next h => exact h.symm
  · rfl

theorem Json.respell_id (j : Json) : j.respell (fun name => name) = j := by
  cases j with
  | text s => exact congrArg Json.text (respellText_id s)
  | null | bool | number | list | object => rfl

theorem Json.truthy?_respell {f : String → String} (hf : ∀ s, s ≠ "" → f s ≠ "") (j : Json) :
    (j.respell f).truthy? = j.truthy?.map (Json.respell f) := by
  cases j with
  | text s =>
    by_cases hs : s = ""
    · simp [respell, respellText, truthy?, isTruthy, hs]
    · simp [respell, respellText, truthy?, isTruthy, hs, hf s hs]
  | null | bool | number | list | object =>
    simp only [respell, truthy?]
    split <;> simp [respell, *]

namespace Node

theorem get?_fields_respell (n : Node) (field : String) :
    (n.respell f).fields.get? field = (n.fields.get? field).map (respellField f field) :=
  Table.get?_mapValues (respellField f) field n.fields

theorem text_respell (n : Node) {field : String} {use : NameUse} (hfield : nameUse? field = some use) :
    (n.respell f).text field = respellText (f use) (n.text field) := by
  unfold text
  rw [get?_fields_respell]
  unfold respellField
  rw [hfield]
  rcases n.fields.get? field with _ | j
  · rfl
  · cases j <;> rfl

theorem text_respell_of_none (n : Node) {field : String} (hfield : nameUse? field = none) :
    (n.respell f).text field = n.text field := by
  unfold text
  rw [get?_fields_respell]
  unfold respellField
  rw [hfield]
  simp

theorem number_respell (n : Node) : (n.respell f).number "NUM" = n.number "NUM" := by
  have hsame : respellField f "NUM" = fun value => value := by
    funext value
    simp [respellField, nameUse?]
  unfold number
  rw [get?_fields_respell, hsame, Option.map_id']

theorem respell_id (n : Node) : n.respell (fun _ name => name) = n := by
  have hfield : ∀ e : String × Json, (e.1, respellField (fun _ name => name) e.1 e.2) = e := by
    rintro ⟨field, value⟩
    unfold respellField
    split
    · rw [Json.respell_id]
    · rfl
  unfold respell
  simp [hfield]

end Node

/-! ## Graphs -/

namespace Graph

variable {g : Graph}

end Graph

end NqcBlocks
