import Mathlib.Data.List.Nodup
import NqcBlocks.Table

/-!
# Reading and writing tables

What a look-up in a table finds after each way of building one. A table whose names are distinct is
its own list of entries: writing them one after the other changes nothing, and looking a name up is
finding its entry (`get?_eq_some_iff`). Changing the values of a table in place changes no name, so a
look-up commutes with it (`get?_mapValues`).
-/

namespace NqcBlocks.Table

open List

variable {β γ : Type} {k name : String}

@[simp] theorem get?_nil (name : String) : get? name ([] : Table β) = none := rfl

theorem get?_cons (name k : String) (v : β) (t : Table β) :
    get? name ((k, v) :: t) = if k = name then some v else get? name t := by
  simp only [get?, beq_iff_eq]

@[simp] theorem names_nil : names ([] : Table β) = [] := rfl

@[simp] theorem names_cons (e : String × β) (t : Table β) : names (e :: t) = e.1 :: names t := rfl

variable {t : Table β} {v : β}

theorem get?_eq_none_iff : get? name t = none ↔ name ∉ names t := by
  induction t with
  | nil => simp
  | cons e t ih =>
    obtain ⟨k, v⟩ := e
    rw [get?_cons, names_cons, mem_cons, not_or]
    by_cases h : k = name
    · simp [h]
    · rw [if_neg h, ih]
      exact (and_iff_right (fun e => h e.symm)).symm

theorem contains_iff : t.contains name = true ↔ name ∈ names t := by
  rw [contains, Option.isSome_iff_ne_none, ne_eq, get?_eq_none_iff, not_not]

theorem get?_eq_some_iff (ht : (names t).Nodup) : get? name t = some v ↔ (name, v) ∈ t := by
  refine ⟨mem_of_get?, fun h => ?_⟩
  induction t with
  | nil => cases h
  | cons e t ih =>
    obtain ⟨k, w⟩ := e
    rw [names_cons, nodup_cons] at ht
    rw [get?_cons]
    rcases mem_cons.mp h with h | h
    · injection h with h₁ h₂
      rw [if_pos h₁.symm, h₂]
    · have hk : k ≠ name := by
        rintro rfl
        exact ht.1 (mem_map.mpr ⟨(k, v), h, rfl⟩)
      rw [if_neg hk, ih ht.2 h]

theorem get?_append (name : String) (t t' : Table β) : get? name (t ++ t') = (get? name t).or (get? name t') := by
  induction t with
  | nil => rfl
  | cons e t ih =>
    obtain ⟨k, v⟩ := e
    rw [cons_append, get?_cons, get?_cons, ih]
    split <;> rfl

theorem exists_get?_of_mem_names (h : name ∈ names t) : ∃ v, get? name t = some v := by
  rw [← contains_iff, contains, Option.isSome_iff_exists] at h
  exact h

theorem mem_names_of_get? (h : get? name t = some v) : name ∈ names t :=
  mem_map_of_mem (mem_of_get? h)

/-! ## Changing values in place -/

theorem names_mapValues (f : String → β → γ) (t : Table β) : names (t.map fun e => (e.1, f e.1 e.2)) = names t := by
  unfold names
  rw [map_map]
  rfl

theorem get?_mapValues (f : String → β → γ) (name : String) (t : Table β) :
    get? name (t.map fun e => (e.1, f e.1 e.2)) = (get? name t).map (f name) := by
  induction t with
  | nil => rfl
  | cons e t ih =>
    obtain ⟨k, v⟩ := e
    rw [map_cons, get?_cons, get?_cons, ih]
    by_cases h : k = name
    · rw [if_pos h, if_pos h, h]
      rfl
    · rw [if_neg h, if_neg h]

theorem get?_of_cons {f : Table β → Table γ} {F : β → γ} (hnil : f [] = [])
    (hcons : ∀ k v t, f ((k, v) :: t) = (k, F v) :: f t) (name : String) :
    ∀ t : Table β, get? name (f t) = (get? name t).map F
  | [] => by
    rw [hnil]
    rfl
  | (k, v) :: t => by
    rw [hcons, get?_cons, get?_cons, get?_of_cons hnil hcons name t]
    split <;> rfl

/-! ## Writing -/

theorem get?_insert (name k : String) (v : β) (t : Table β) :
    get? name (insert k v t) = if k = name then some v else get? name t := by
  induction t with
  | nil => rw [insert, get?_cons]
  | cons e t ih =>
    obtain ⟨k', w⟩ := e
    rw [insert]
    by_cases h' : k' = k
    · rw [if_pos (by simpa using h'), get?_cons, get?_cons, h']
      split <;> rfl
    · rw [if_neg (by simpa using h'), get?_cons, get?_cons, ih]
      by_cases h : k = name
      · rw [if_pos h, if_pos h, if_neg (fun e => h' (e.trans h.symm))]
      · rw [if_neg h, if_neg h]

theorem names_insert_of_mem (v : β) (h : k ∈ names t) : names (insert k v t) = names t := by
  induction t with
  | nil => cases h
  | cons e t ih =>
    obtain ⟨k', w⟩ := e
    rw [insert]
    by_cases h' : k' = k
    · rw [if_pos (by simpa using h')]
      rfl
    · rw [if_neg (by simpa using h')]
      rw [names_cons, names_cons, ih]
      rcases mem_cons.mp h with h | h
      · exact absurd h.symm h'
      · exact h

theorem insert_of_notMem (v : β) (h : k ∉ names t) : insert k v t = t ++ [(k, v)] := by
  induction t with
  | nil => rfl
  | cons e t ih =>
    obtain ⟨k', w⟩ := e
    rw [names_cons, mem_cons, not_or] at h
    rw [insert, if_neg (by simpa using fun e => h.1 e.symm), ih h.2]
    rfl

theorem nodup_names_insert (h : (names t).Nodup) : (names (insert k v t)).Nodup := by
  by_cases hk : k ∈ names t
  · rwa [names_insert_of_mem v hk]
  · rw [insert_of_notMem v hk]
    unfold names at h hk ⊢
    rw [map_append, map_singleton, nodup_append]
    refine ⟨h, nodup_singleton _, ?_⟩
    rintro name hname _ hb rfl
    have heq : name = k := mem_singleton.mp hb
    exact hk (heq ▸ hname)

theorem eq_of_get? {t' : Table β} (hnames : names t = names t') (hnodup : (names t).Nodup)
    (h : ∀ name ∈ names t, get? name t = get? name t') : t = t' := by
  induction t generalizing t' with
  | nil => exact (map_eq_nil_iff.mp hnames.symm).symm
  | cons e t ih =>
    obtain ⟨k, v⟩ := e
    obtain ⟨⟨k', v'⟩, t', rfl, hk, ht⟩ := List.map_eq_cons_iff.mp hnames.symm
    obtain rfl : k' = k := hk
    rw [names_cons, nodup_cons] at hnodup
    have hhead := h k' mem_cons_self
    rw [get?_cons, get?_cons, if_pos rfl, if_pos rfl] at hhead
    rw [Option.some.inj hhead]
    refine congrArg _ (ih ht.symm hnodup.2 fun name hname => ?_)
    have htail := h name (mem_cons_of_mem _ hname)
    have hne : k' ≠ name := fun heq => hnodup.1 (heq ▸ hname)
    rwa [get?_cons, get?_cons, if_neg hne, if_neg hne] at htail

theorem ofEntries_of_nodup {entries : List (String × β)} (h : (entries.map (·.1)).Nodup) :
    ofEntries entries = entries := by
  -- what has been written so far and what is still to come have distinct names together
  have key : ∀ (rest written : List (String × β)), (names (written ++ rest)).Nodup →
      rest.foldl (fun t e => insert e.1 e.2 t) written = written ++ rest := by
    intro rest
    induction rest with
    | nil => intro written _; simp
    | cons e rest ih =>
      intro written hw
      have he : e.1 ∉ names written := by
        intro hm
        unfold names at hw hm
        rw [map_append, nodup_append] at hw
        exact hw.2.2 _ hm _ (mem_map_of_mem mem_cons_self) rfl
      rw [foldl_cons, insert_of_notMem _ he, ih]
      · rw [append_assoc]
        rfl
      · rw [append_assoc]
        exact hw
  exact key entries [] h

end NqcBlocks.Table
