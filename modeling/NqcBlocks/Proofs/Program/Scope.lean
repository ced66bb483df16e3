import NqcBlocks.Proofs.Naming.Resolver

/-!
# Scopes as lists of names

What registering variables and giving loops their variables makes of a scope. A scope holds each name
once; which variable a loop gets does not depend on what has been renamed meanwhile (`allocate_congr`). One loop
after the other gets the variable with the least free number (`Allocated`), so that the numbers increase.
-/

namespace NqcBlocks.Scope

open List Resolver Name

variable {s : Scope} {name : String} {r : Resolver} {loop : Handle}

def declare (s : Scope) (name : String) : Scope :=
  if s.contains name then s else { s with names := s.names ++ [.text name] }

def declareAll (s : Scope) (names : List String) : Scope := names.foldl declare s

def allocateAll (r : Resolver) (s : Scope) (loops : List Handle) : Scope :=
  loops.foldl (fun s loop => (s.allocate loop r).2) s

theorem contains_iff : s.contains name = true ↔ .text name ∈ s.names :=
  isIn_text_iff

theorem register_eq (s : Scope) (hne : name ≠ "") : s.register name = .ok (!s.contains name, s.declare name) := by
  have hempty : (text name).isEmpty = false := by
    show (!(!name.isEmpty)) = false
    rw [Bool.not_not, Bool.eq_false_iff]
    exact fun h => hne (String.isEmpty_iff.mp h)
  unfold register declare
  rw [hempty]
  cases s.contains name <;> rfl

theorem declare_of_contains (h : s.contains name = true) : s.declare name = s := if_pos h

theorem mem_names_declare {y : Name} : y ∈ (s.declare name).names ↔ y ∈ s.names ∨ y = .text name := by
  unfold declare
  split
  · next h =>
    rw [contains_iff] at h
    exact ⟨.inl, fun hor => hor.elim id fun e => e ▸ h⟩
  · rw [mem_append, mem_singleton]

theorem nodup_names_declare (h : s.names.Nodup) (name : String) : (s.declare name).names.Nodup := by
  unfold declare
  split
  · exact h
  · next hc =>
    rw [contains_iff] at hc
    refine nodup_append.mpr ⟨h, nodup_singleton _, fun a ha b hb => ?_⟩
    rw [mem_singleton.mp hb]
    exact fun e => hc (e ▸ ha)

theorem key_declareAll (s : Scope) (names : List String) : (s.declareAll names).key = s.key := by
  unfold declareAll
  induction names generalizing s with
  | nil => rfl
  | cons name names ih =>
    rw [foldl_cons, ih]
    unfold declare
    split <;> rfl

theorem auxiliary_declareAll (s : Scope) (names : List String) : (s.declareAll names).auxiliary = s.auxiliary := by
  unfold declareAll
  induction names generalizing s with
  | nil => rfl
  | cons name names ih =>
    rw [foldl_cons, ih]
    unfold declare
    split <;> rfl

theorem mem_names_declareAll {names : List String} {y : Name} :
    y ∈ (s.declareAll names).names ↔ y ∈ s.names ∨ ∃ name ∈ names, y = .text name := by
  unfold declareAll
  induction names generalizing s with
  | nil => simp
  | cons name names ih =>
    rw [foldl_cons, ih, mem_names_declare, exists_mem_cons_iff, or_assoc]

theorem nodup_names_declareAll (h : s.names.Nodup) (names : List String) : (s.declareAll names).names.Nodup := by
  unfold declareAll
  induction names generalizing s with
  | nil => exact h
  | cons name names ih => exact ih (nodup_names_declare h name)

/-! ## Loop variables -/

theorem isFreeBound_iff {candidate : String} :
    s.isFreeBound r candidate = true ↔ candidate ∉ texts s.names ++ r.blocked := by
  unfold isFreeBound
  rw [Bool.and_eq_true, Bool.not_eq_true', isFree_iff, mem_append, not_or,
    mem_texts, ← contains_iff, Bool.not_eq_true]

theorem exists_freeBound (s : Scope) (r : Resolver) : ∃ k, k < s.names.length + r.searchBound
    ∧ s.isFreeBound r (boundName (1 + k)) = true := by
  have hlength : (texts s.names ++ r.blocked).length < s.names.length + r.searchBound := by
    have htexts := length_texts_le s.names
    have hblocked := r.length_blocked_lt
    rw [length_append]
    omega
  obtain ⟨k, hk, hfree⟩ := exists_free "repeat_bound_" 1 hlength
  exact ⟨k, hk, isFreeBound_iff.mpr hfree⟩

theorem allocate_eq_of_isFree {r₀ : Resolver}
    (h : ∀ n, r.isFree (boundName n) = r₀.isFree (boundName n)) (s : Scope) (loop : Handle) :
    s.allocate loop r = s.allocate loop r₀ := by
  have hfree : ∀ n, s.isFreeBound r (boundName n) = s.isFreeBound r₀ (boundName n) := by
    intro n
    unfold isFreeBound
    rw [h]
  obtain ⟨k, hk, hfk⟩ := s.exists_freeBound r
  obtain ⟨k₀, hk₀, hfk₀⟩ := s.exists_freeBound r₀
  unfold allocate
  split
  · rfl
  · rw [leastFrom_congr hfree hk hfk hk₀ hfk₀]

theorem isReservedTask_boundName (k : Nat) : isReservedTask (boundName k) = false :=
  Bool.eq_false_iff.mpr fun h =>
    suffixed_notMem_stems mem_cons_self k (mem_stems_of_isReservedTask h)

theorem boundName_ne_freshName {word : String} (hw : isReservedTask word = true) (k : Nat) :
    boundName k ≠ r.freshName word := by
  intro heq
  have hword : "repeat_bound_" = word := stem_unique mem_cons_self (mem_stems_of_isReservedTask hw) heq
  rw [← hword] at hw
  revert hw
  decide

theorem allocate_congr {r₀ : Resolver} (h : r₀.Sound r) (s : Scope) (loop : Handle) :
    s.allocate loop r = s.allocate loop r₀ := by
  refine allocate_eq_of_isFree (fun n => ?_) s loop
  have htaken : (text (boundName n)).isIn r.taken = (text (boundName n)).isIn r₀.taken := by
    rw [Bool.eq_iff_iff, isIn_text_iff, isIn_text_iff, h.taken]
    refine ⟨fun hor => hor.resolve_right ?_, .inl⟩
    rintro ⟨word, hren⟩
    obtain ⟨hw, heq⟩ := h.renamed hren
    exact boundName_ne_freshName hw n heq
  unfold isFree isTaken
  rw [htaken]

theorem allocate_of_auxiliaryName? (h : s.auxiliaryName? loop = some name) (r : Resolver) :
    s.allocate loop r = (name, s) := by
  unfold allocate
  rw [h]

theorem auxiliaryName?_eq_none_iff : s.auxiliaryName? loop = none ↔ loop ∉ s.auxiliary.map (·.1) := by
  unfold auxiliaryName?
  rw [Option.map_eq_none_iff, find?_eq_none, mem_map, not_exists]
  refine forall_congr' fun a => ?_
  rw [beq_iff_eq, not_and]

theorem mem_of_auxiliaryName? (h : s.auxiliaryName? loop = some name) : (loop, name) ∈ s.auxiliary := by
  obtain ⟨a, ha, rfl⟩ := Option.map_eq_some_iff.mp h
  obtain rfl : a.1 = loop := beq_iff_eq.mp (List.find?_eq_some_iff_append.mp ha).1
  exact mem_of_find?_eq_some ha

theorem auxiliaryName?_of_mem (hnodup : (s.auxiliary.map (·.1)).Nodup) (h : (loop, name) ∈ s.auxiliary) :
    s.auxiliaryName? loop = some name := by
  cases hname : s.auxiliaryName? loop with
  | none => exact absurd (mem_map_of_mem h) (auxiliaryName?_eq_none_iff.mp hname)
  | some name' =>
    have heq := inj_on_of_nodup_map hnodup (mem_of_auxiliaryName? hname) h rfl
    rw [(Prod.mk.inj heq).2]

/-- **What giving loops their variables makes of a scope** that had none: each loop has one, in the order in which
the loops come first. The names of the variables are behind all others. Their numbers increase, and are the least
ones that were free. -/
structure Allocated (r : Resolver) (s₀ : Scope) (loops : List Handle) (numbers : List Nat) (s : Scope) :
    Prop where
  key : s.key = s₀.key
  sublist : (s.auxiliary.map (·.1)).Sublist loops
  covers : ∀ loop ∈ loops, loop ∈ s.auxiliary.map (·.1)
  nodup : (s.auxiliary.map (·.1)).Nodup
  given : s.auxiliary.map (·.2) = numbers.map boundName
  names : s.names = s₀.names ++ numbers.map fun k => .text (boundName k)
  increasing : numbers.Pairwise (· < ·)
  free : ∀ k ∈ numbers, 1 ≤ k ∧ s₀.isFreeBound r (boundName k) = true
  least : ∀ k ∈ numbers, ∀ m, 1 ≤ m → m < k → s₀.isFreeBound r (boundName m) = true → m ∈ numbers

namespace Allocated

variable {s₀ : Scope} {loops : List Handle} {numbers : List Nat}

theorem isFreeBound_iff (h : Allocated r s₀ loops numbers s) {k : Nat} : s.isFreeBound r (boundName k) = true
    ↔ s₀.isFreeBound r (boundName k) = true ∧ k ∉ numbers := by
  have hmem : text (boundName k) ∈ numbers.map (fun k => text (boundName k)) ↔ k ∈ numbers :=
    mem_map_of_injective fun a b hab => suffixed_injective _ (text.inj hab)
  simp only [isFreeBound, Bool.and_eq_true, Bool.not_eq_true', Bool.eq_false_iff, ne_eq, contains_iff, h.names,
    mem_append, hmem, not_or]
  tauto

theorem step (h : Allocated r s₀ loops numbers s) (loop : Handle) :
    ∃ numbers', Allocated r s₀ (loops ++ [loop]) numbers' (s.allocate loop r).2 := by
  cases haux : s.auxiliaryName? loop with
  | some name =>
    rw [allocate_of_auxiliaryName? haux]
    have hown : loop ∈ s.auxiliary.map (·.1) := mem_map_of_mem (mem_of_auxiliaryName? haux)
    exact ⟨numbers, { h with
      sublist := h.sublist.trans (sublist_append_left _ _)
      covers := forall_mem_append.mpr ⟨h.covers, List.forall_mem_singleton.mpr hown⟩ }⟩
  | none =>
    obtain ⟨n, hn, hfree⟩ := s.exists_freeBound r
    obtain ⟨haccepts, hle, hleast⟩ := leastFrom_spec (fun n => s.isFreeBound r (boundName n)) hn hfree
    unfold allocate
    rw [haux]
    dsimp only
    generalize leastFrom (fun n => s.isFreeBound r (boundName n)) 1
      (s.names.length + r.searchBound) = k at haccepts hle hleast
    obtain ⟨hk, hnew⟩ := h.isFreeBound_iff.mp haccepts
    have habove : ∀ m ∈ numbers, m < k := by
      intro m hm
      rcases Nat.lt_trichotomy m k with hlt | rfl | hlt
      · exact hlt
      · exact absurd hm hnew
      · exact absurd (h.least m hm k hle hlt hk) hnew
    refine ⟨numbers ++ [k], ⟨h.key, ?_, ?_, ?_, ?_, ?_, ?_, ?_, ?_⟩⟩
    · rw [map_append]
      exact h.sublist.append (List.Sublist.refl _)
    · rw [map_append]
      exact forall_mem_append.mpr ⟨fun x hx => mem_append_left _ (h.covers x hx),
        List.forall_mem_singleton.mpr (mem_append_right _ mem_cons_self)⟩
    · rw [map_append]
      refine nodup_append.mpr ⟨h.nodup, nodup_singleton _, fun a ha b hb hab => ?_⟩
      rw [hab, mem_singleton.mp hb] at ha
      exact auxiliaryName?_eq_none_iff.mp haux ha
    · rw [map_append, map_append, h.given]
      rfl
    · rw [map_append, h.names, append_assoc]
      rfl
    · exact pairwise_append.mpr ⟨h.increasing, pairwise_singleton _ _, fun m hm k' hk' =>
        mem_singleton.mp hk' ▸ habove m hm⟩
    · exact forall_mem_append.mpr ⟨h.free, List.forall_mem_singleton.mpr ⟨hle, hk⟩⟩
    · intro k' hk' m hm hlt hmfree
      rcases mem_append.mp hk' with hk' | hk'
      · exact mem_append_left _ (h.least k' hk' m hm hlt hmfree)
      · rw [mem_singleton.mp hk'] at hlt
        by_contra hnot
        have hstill := h.isFreeBound_iff.mpr ⟨hmfree, fun hmem => hnot (mem_append_left _ hmem)⟩
        rw [hleast m hm hlt] at hstill
        cases hstill

theorem exists_number (h : Allocated r s₀ loops numbers s) {loop : Handle} (hloop : loop ∈ loops) :
    ∃ k, s.auxiliaryName? loop = some (boundName k) := by
  obtain ⟨a, hmem, rfl⟩ := mem_map.mp (h.covers loop hloop)
  obtain ⟨k, -, hk⟩ := mem_map.mp (h.given ▸ mem_map_of_mem hmem)
  exact ⟨k, by rw [auxiliaryName?_of_mem h.nodup hmem, hk]⟩

theorem exists_loop (h : Allocated r s₀ loops numbers s) {k : Nat} (hk : k ∈ numbers) :
    ∃ loop ∈ loops, s.auxiliaryName? loop = some (boundName k) := by
  obtain ⟨⟨loop, name⟩, hmem, hname⟩ := mem_map.mp (h.given ▸ mem_map_of_mem hk)
  exact ⟨loop, h.sublist.subset (mem_map_of_mem hmem), by rw [auxiliaryName?_of_mem h.nodup hmem, ← hname]⟩

theorem number_of_auxiliaryName? (h : Allocated r s₀ loops numbers s) (hname : s.auxiliaryName? loop = some name) :
    ∃ k ∈ numbers, name = boundName k := by
  obtain ⟨k, hk, heq⟩ := mem_map.mp (h.given ▸ mem_map_of_mem (mem_of_auxiliaryName? hname))
  exact ⟨k, hk, heq.symm⟩

theorem map_auxiliaryName? (h : Allocated r s₀ loops numbers s) (hnodup : loops.Nodup) :
    loops.map s.auxiliaryName? = numbers.map fun k => some (boundName k) := by
  have hloops : s.auxiliary.map (·.1) = loops :=
    h.sublist.eq_of_length_le (List.Nodup.length_le_of_subset hnodup h.covers)
  have hnames : s.auxiliary.map (fun a => s.auxiliaryName? a.1) = s.auxiliary.map fun a => some a.2 :=
    map_congr_left fun a ha => auxiliaryName?_of_mem h.nodup ha
  calc loops.map s.auxiliaryName? = s.auxiliary.map fun a => s.auxiliaryName? a.1 := by
        rw [← hloops, map_map]
        rfl
    _ = (s.auxiliary.map (·.2)).map some := by
        rw [hnames, map_map]
        rfl
    _ = numbers.map fun k => some (boundName k) := by
        rw [h.given, map_map]
        rfl

theorem nodup_names (h : Allocated r s₀ loops numbers s) (hnodup : s₀.names.Nodup) : s.names.Nodup := by
  rw [h.names]
  refine nodup_append.mpr ⟨hnodup, ?_, fun a ha b hb hab => ?_⟩
  · have hdistinct : numbers.Nodup := h.increasing.imp Nat.ne_of_lt
    exact hdistinct.map fun a b hab => suffixed_injective _ (text.inj hab)
  · obtain ⟨k, hk, rfl⟩ := mem_map.mp hb
    have hfree := (h.free k hk).2
    rw [isFreeBound, Bool.and_eq_true, Bool.not_eq_true', Bool.eq_false_iff, ne_eq, contains_iff] at hfree
    exact hfree.1 (hab ▸ ha)

end Allocated

theorem Allocated.allocateAll {s₀ : Scope} : ∀ {loops before : List Handle} {numbers : List Nat} {s : Scope},
    Allocated r s₀ before numbers s → ∃ numbers', Allocated r s₀ (before ++ loops) numbers' (allocateAll r s loops)
  | [], before, numbers, s, h => ⟨numbers, by rwa [append_nil]⟩
  | loop :: loops, before, numbers, s, h => by
    obtain ⟨numbers', h'⟩ := h.step loop
    rw [append_cons]
    exact h'.allocateAll

theorem allocated_allocateAll (r : Resolver) (hs : s.auxiliary = []) (loops : List Handle) :
    ∃ numbers, Allocated r s loops numbers (allocateAll r s loops) := by
  have hstart : Allocated r s [] [] s := by
    refine ⟨rfl, ?_, by simp, ?_, ?_, (append_nil _).symm, .nil, by simp, by simp⟩
    · rw [hs]
      exact List.Sublist.refl _
    · rw [hs]
      exact nodup_nil
    · rw [hs]
      rfl
  exact hstart.allocateAll

end NqcBlocks.Scope
