import Mathlib
import NqcBlocks.Proofs.Decimal.Literal
import NqcBlocks.Proofs.Workspace.Growth

/-!
# The values of fields

Whatever values commands and documents give to fields, a dropdown holds one of its options, an identifier
field an identifier and a number field a number (`Graph.Arises.fields_valid`). All of this is what conformity
to a kind says (`Node.Conforms`), read off the check that conformity is stated with.
-/

namespace NqcBlocks

open Text Workspace Char

variable {g : Graph} {n : Node} {f : FieldSpec} {v : Json} {s : String} {spec : BlockSpec}

/-! ## What the check of a field admits -/

def IsIdentifier (s : String) : Prop :=
  ∃ c rest, s.toList = c :: rest ∧ (c.isAlpha = true ∨ c = '_') ∧
    ∀ d ∈ rest, d.isAlphanum = true ∨ d = '_'

def FieldSpec.Admits (f : FieldSpec) (v : Json) : Prop :=
  match f.kind with
  | .dropdown => ∃ s ∈ f.options, v = .text s
  | .identifier => ∃ s, v = .text s ∧ (s = "" ∧ f.allowEmpty = true ∨ IsIdentifier s) ∧ Text.strip s = s ∧
      ∀ c ∈ s.toList, Text.isBlank c = false ∧ Text.isLineBreak c = false
  | .number => ∃ x, v = .number x
  | .text => ∃ s, v = .text s

theorem isAlpha_of_isNameStart {c : Char} (h : isNameStart c = true) : c.isAlpha = true ∨ c = '_' := by
  simpa [isNameStart, isAlpha, isUpper, isLower, le_def, or_comm, and_comm] using h

theorem isAlphanum_of_isNameChar {c : Char} (h : isNameChar c = true) : c.isAlphanum = true ∨ c = '_' := by
  unfold isNameChar at h
  rcases Bool.or_eq_true _ _ |>.mp h with h | h
  · rcases isAlpha_of_isNameStart h with h | h
    · exact .inl (by rw [isAlphanum, h, Bool.true_or])
    · exact .inr h
  · have hdigit : c.isDigit = true := by
      simpa [isDigit, le_def] using h
    exact .inl (by rw [isAlphanum, hdigit, Bool.or_true])

theorem isIdentifier_of_isName (h : isName s = true) : IsIdentifier s := by
  unfold isName at h
  split at h
  · cases h
  · next c rest hs =>
    rw [Bool.and_eq_true, List.all_eq_true] at h
    exact ⟨c, rest, hs, isAlpha_of_isNameStart h.1, fun d hd => isAlphanum_of_isNameChar (h.2 d hd)⟩

theorem isLineBreak_of_isNameChar {c : Char} (h : isNameChar c = true) : isLineBreak c = false := by
  have hc := toNat_of_isNameChar h
  simp only [isLineBreak, Bool.or_eq_false_iff, Bool.and_eq_false_iff, decide_eq_false_iff_not, beq_eq_false_iff_ne]
  omega

theorem FieldSpec.admits_of_checked (h : f.checked v = .ok v) : f.Admits v := by
  unfold checked at h
  unfold Admits
  cases hk : f.kind with
  | dropdown =>
    rw [hk] at h
    cases v <;> simp only [reduceCtorEq] at h
    next s =>
      split at h
      · next hs => exact ⟨s, List.contains_iff_mem.mp hs, rfl⟩
      · cases h
  | number =>
    rw [hk] at h
    cases v <;> simp only [reduceCtorEq] at h
    next x => exact ⟨x, rfl⟩
  | text =>
    rw [hk] at h
    cases v <;> simp only [reduceCtorEq] at h
    next s => exact ⟨s, rfl⟩
  | identifier =>
    rw [hk] at h
    cases v <;> simp only [reduceCtorEq] at h
    next s =>
      split at h
      · next hs =>
        have hstrip : strip s = s := by
          simpa using h
        rw [hstrip, Bool.or_eq_true, Bool.and_eq_true, String.isEmpty_iff] at hs
        refine ⟨s, rfl, hs.imp id isIdentifier_of_isName, hstrip, fun c hc => ?_⟩
        rcases hs with ⟨rfl, -⟩ | hname
        · cases hc
        · have hchar := isNameChar_of_isName hname hc
          exact ⟨isBlank_of_isNameChar hchar, isLineBreak_of_isNameChar hchar⟩
      · cases h

theorem FieldSpec.bounds_of_checked {x : Number} {lo hi : Int} (hk : f.kind = .number)
    (hmin : f.minimum = some (.int lo)) (hmax : f.maximum = some (.int hi))
    (h : f.checked (.number x) = .ok (.number x)) :
    x = .double .nan ∨ ∃ v, x.value? = some v ∧ lo ≤ v ∧ v ≤ hi := by
  unfold checked at h
  rw [hk, hmin, hmax] at h
  dsimp only at h
  split at h
  · cases h
  · next hlo =>
    split at h
    · cases h
    · next hhi =>
      simp only [Option.filter_eq_none_iff, Option.some.injEq, forall_eq', Bool.not_eq_true] at hlo hhi
      exact Number.nan_or_bounds_of_not_lt hlo hhi

/-- **What a percentage holds**: a number between 0 and 100 that is written as a numeral between 0 and 100, or
what is not a number, which is written as `nan`. -/
def Node.HoldsPercent (n : Node) : Prop :=
  ∃ x, n.fields.get? "NUM" = some (.number x) ∧ (∀ value, valueCode n value = pure (numberCode x)) ∧
    (x = .double .nan ∧ (numberCode x).text = "nan" ∨
      (∃ v, x.value? = some v ∧ 0 ≤ v ∧ v ≤ 100) ∧
        ∃ u, Numeral.value? (numberCode x).text.toList = some u ∧ 0 ≤ u ∧ u ≤ 100)

theorem Node.holdsPercent_of_conforms (hconf : n.Conforms spec) (hkind : n.kind = .percent) : n.HoldsPercent := by
  have hknown := hconf.known
  rw [hkind, Builtin.spec?, Option.some.injEq] at hknown
  obtain ⟨v, hv, hchecked⟩ := hconf.held
    { name := "NUM", kind := .number, default := .int 50, minimum := some (.int 0), maximum := some (.int 100) }
    (by rw [← hknown]; exact List.mem_singleton_self _)
  obtain ⟨x, rfl⟩ : ∃ x, v = .number x := FieldSpec.admits_of_checked hchecked
  refine ⟨x, hv, fun value => ?_, ?_⟩
  · simp only [valueCode, hkind, Node.number, hv]
  · rcases FieldSpec.bounds_of_checked rfl rfl rfl hchecked with rfl | ⟨v, hx, hlo, hhi⟩
    · exact .inl ⟨rfl, rfl⟩
    · exact .inr ⟨⟨v, hx, by exact_mod_cast hlo, by exact_mod_cast hhi⟩,
        Number.value?_code hx (by exact_mod_cast hlo) (by exact_mod_cast hhi)⟩

namespace Graph

/-! ## Graphs of documents and commands -/

/-- **The graphs that can come about**: the empty one, those of documents, and what commands and flags make of
them. -/
inductive Arises : Graph → Prop
  | empty : Arises .empty
  | loaded {document : Json} {g : Graph} : Workspace.toGraph document = .ok g → Arises g
  | command {e : Editor} (c : Command) : Arises e.graph → Arises (e.attempt c).graph
  | flags {g : Graph} (h : Handle) (enabled : Bool) (warning : Option String) :
      Arises g → Arises (g.setFlags h enabled warning)

theorem Arises.forest (hg : g.Arises) : g.Forest := by
  induction hg with
  | empty => exact .empty
  | loaded hload => exact forest_of_toGraph hload
  | command c _ ih => exact (Editor.leadsTo_attempt ih c).forest
  | flags h enabled warning _ ih => exact (ih.setFlags h enabled warning).forest

/-- **Fields hold what they are there to hold**, in every graph that can come about and whatever values were
given: a dropdown one of its options, an identifier field an identifier with nothing around it, a number field
a number, and a percentage what `Node.HoldsPercent` says. -/
theorem fields_valid (hg : g.Arises) (hn : n ∈ g.nodes) :
    ∃ spec, Builtin.spec? n.kind = some spec ∧ n.fields.names = spec.fields.map (·.name) ∧
      (∀ f ∈ spec.fields, ∃ v, n.fields.get? f.name = some v ∧ f.Admits v) ∧
      (n.kind = .percent → n.HoldsPercent) := by
  obtain ⟨-, spec, hconf⟩ := hg.forest.sound (hg.forest.mem_nodes_iff_get?.mp hn)
  refine ⟨spec, hconf.known, hconf.fieldNames, fun f hf => ?_, Node.holdsPercent_of_conforms hconf⟩
  obtain ⟨v, hv, hchecked⟩ := hconf.held f hf
  exact ⟨v, hv, FieldSpec.admits_of_checked hchecked⟩

def percentDocument (num : String) : Json :=
  .object [("blocks", .object [("blocks",
    .list [.object [("type", .text "percent"), ("fields", .object [("NUM", .text num)])]])])]

def percents : List (String × Number) :=
  [("12.5", .double (.finite false 7036874417766400 (-49))), ("nan", .double .nan)]

theorem exists_of_percentDocument {num : String} {x : Number} (h : (num, x) ∈ percents) :
    (numberCode x).text = num ∧ ∃ g, toGraph (percentDocument num) = .ok g
      ∧ ∃ n ∈ g.nodes, n.kind = .percent ∧ n.number "NUM" = x := by
  have hevaluated : ∀ e ∈ percents, (numberCode e.2).text = e.1
      ∧ (toGraph (percentDocument e.1)).toOption.map (fun g => g.nodes.map fun n => (n.kind, n.number "NUM"))
        = some [(.percent, e.2)] := by
    decide +kernel
  obtain ⟨htext, hloads⟩ := hevaluated (num, x) h
  refine ⟨htext, ?_⟩
  cases hload : toGraph (percentDocument num) with
  | error cause =>
    rw [hload] at hloads
    cases hloads
  | ok g =>
    rw [hload] at hloads
    have hnodes : (g.nodes.map fun n => (n.kind, n.number "NUM")) = [(.percent, x)] := Option.some.inj hloads
    have hmem : (.percent, x) ∈ g.nodes.map fun n => (n.kind, n.number "NUM") := by
      rw [hnodes]
      exact List.mem_singleton_self _
    obtain ⟨n, hn, heq⟩ := List.mem_map.mp hmem
    exact ⟨g, rfl, n, hn, (Prod.mk.inj heq).1, (Prod.mk.inj heq).2⟩

/-- A percentage that is not a whole number. -/
theorem fields_valid_eighth :
    ∃ g, Workspace.toGraph (percentDocument "12.5") = .ok g ∧
      ∃ n ∈ g.nodes, (numberCode (n.number "NUM")).text = "12.5" ∧ n.HoldsPercent := by
  obtain ⟨htext, g, hload, n, hn, hkind, hx⟩ := exists_of_percentDocument List.mem_cons_self
  obtain ⟨spec, -, -, -, hpercent⟩ := fields_valid (.loaded hload) hn
  refine ⟨g, hload, n, hn, ?_, hpercent hkind⟩
  rw [hx]
  exact htext

/-- **A percentage that is not a number**: a document may give it as a text, and its literal is no numeral. -/
theorem percent_not_a_number :
    ∃ g, Workspace.toGraph (percentDocument "nan") = .ok g ∧
      ∃ n ∈ g.nodes, n.kind = .percent ∧ (n.number "NUM").value? = none ∧
        (numberCode (n.number "NUM")).text = "nan" ∧ Numeral.value? "nan".toList = none := by
  obtain ⟨htext, g, hload, n, hn, hkind, hx⟩ := exists_of_percentDocument (List.mem_cons_of_mem _ List.mem_cons_self)
  exact ⟨g, hload, n, hn, hkind, by rw [hx]; rfl, by rw [hx]; exact htext, rfl⟩

end Graph

end NqcBlocks
