import NqcBlocks.Proofs.Block.Conformity

/-!
# What names are resolved to

A resolver changes as it resolves names: it remembers what it has renamed, and the new names are taken
from then on. What a name is resolved to does not depend on that. `Resolver.spell` is the answer in
terms of the resolver that one started with, and `Sound.resolve` says that every later state of the
resolver gives it, or refuses the name if it is reserved and the policy is to refuse.
-/

namespace NqcBlocks

open List String Number

variable {r r₀ : Resolver} {s word : String} {bound : Nat} {names : List Name}

/-! ## The least number -/

namespace Resolver

theorem leastFrom_spec (accepts : Nat → Bool) {start k : Nat} (hk : k < bound) (ha : accepts (start + k) = true) :
    accepts (leastFrom accepts start bound) = true ∧ start ≤ leastFrom accepts start bound
      ∧ ∀ m, start ≤ m → m < leastFrom accepts start bound → accepts m = false := by
  unfold leastFrom
  rw [← range'_eq_map_range]
  cases hfind : (range' start bound).find? accepts with
  | none =>
    rw [find?_eq_none] at hfind
    exact absurd ha (hfind _ (List.mem_range'_1.mpr ⟨by omega, by omega⟩))
  | some n =>
    obtain ⟨hn, hmem, hleast⟩ := List.find?_range'_eq_some.mp hfind
    refine ⟨hn, (List.mem_range'_1.mp hmem).1, fun m hm hlt => ?_⟩
    simpa using hleast m hm hlt

theorem leastFrom_congr {accepts accepts' : Nat → Bool} {start bound' k k' : Nat}
    (heq : ∀ n, accepts n = accepts' n) (hk : k < bound) (ha : accepts (start + k) = true)
    (hk' : k' < bound') (ha' : accepts' (start + k') = true) :
    leastFrom accepts start bound = leastFrom accepts' start bound' := by
  obtain rfl : accepts = accepts' := funext heq
  obtain ⟨h₁, hle₁, hleast₁⟩ := leastFrom_spec accepts hk ha
  obtain ⟨h₂, hle₂, hleast₂⟩ := leastFrom_spec accepts hk' ha'
  rcases Nat.lt_trichotomy (leastFrom accepts start bound) (leastFrom accepts start bound')
    with h | h | h
  · rw [hleast₂ _ hle₁ h] at h₁
    cases h₁
  · exact h
  · rw [hleast₁ _ hle₂ h] at h₂
    cases h₂

theorem suffixed_injective (word : String) : Function.Injective (suffixed word) :=
  numbered_injective word

theorem exists_free (word : String) (start : Nat) {blocked : List String}
    (h : blocked.length < bound) : ∃ k, k < bound ∧ suffixed word (start + k) ∉ blocked := by
  by_contra hall
  push Not at hall
  have hnd : ((List.range bound).map fun k => suffixed word (start + k)).Nodup :=
    List.nodup_range.map fun a b hab => Nat.add_left_cancel (suffixed_injective word hab)
  have hsub : ((List.range bound).map fun k => suffixed word (start + k)) ⊆ blocked := by
    intro x hx
    obtain ⟨k, hk, rfl⟩ := mem_map.mp hx
    exact hall k (List.mem_range.mp hk)
  have hle := hnd.length_le_of_subset hsub
  rw [List.length_map, length_range] at hle
  omega

end Resolver

/-! ## Names that are texts -/

def Name.texts (names : List Name) : List String :=
  names.filterMap fun
    | .text s => some s
    | .value _ => none

theorem Name.mem_texts : s ∈ texts names ↔ .text s ∈ names := by
  unfold texts
  rw [mem_filterMap]
  constructor
  · rintro ⟨n, hn, hs⟩
    cases n with
    | text t => cases hs; exact hn
    | value v => cases hs
  · exact fun h => ⟨.text s, h, rfl⟩

theorem Name.length_texts_le (names : List Name) : (texts names).length ≤ names.length :=
  length_filterMap_le _ _

theorem Name.isIn_text_iff : (Name.text s).isIn names = true ↔ .text s ∈ names := by
  unfold isIn
  rw [any_eq_true]
  constructor
  · rintro ⟨n, hn, hs⟩
    cases n with
    | text t =>
      rw [same_text, beq_iff_eq] at hs
      rw [hs]
      exact hn
    | value v => cases hs
  · exact fun h => ⟨.text s, h, by rw [same_text, beq_iff_eq]⟩

theorem Name.mem_distinct_text : .text s ∈ distinct names ↔ .text s ∈ names := by
  have hfold : ∀ {names kept : List Name}, Name.text s
      ∈ names.foldl (fun kept n => if n.isIn kept then kept else kept ++ [n]) kept
        ↔ .text s ∈ kept ∨ .text s ∈ names := by
    intro names
    induction names with
    | nil => simp
    | cons n names ih =>
      intro kept
      rw [foldl_cons, ih, mem_cons]
      split
      · next hin =>
        -- a text that is among the kept ones is one of them
        have hkept : Name.text s = n → Name.text s ∈ kept := by
          rintro rfl
          exact isIn_text_iff.mp hin
        constructor
        · rintro (h | h)
          · exact .inl h
          · exact .inr (.inr h)
        · rintro (h | h | h)
          · exact .inl h
          · exact .inl (hkept h)
          · exact .inr h
      · rw [mem_append, mem_singleton, or_assoc]
  unfold distinct
  rw [hfold]
  simp

/-! ## Words with numbers behind them -/

def stems : List String := "repeat_bound_" :: entryName :: reservedWords

theorem mem_stems_of_isReservedTask (h : isReservedTask word = true) : word ∈ stems := by
  unfold isReservedTask isReserved at h
  rw [Bool.or_eq_true, beq_iff_eq, contains_iff_mem] at h
  unfold stems
  rcases h with rfl | h
  · exact mem_cons_of_mem _ mem_cons_self
  · exact mem_cons_of_mem _ (mem_cons_of_mem _ h)

theorem numbered_stems_prefix_free : ∀ w ∈ stems, w.toList.getLast?.any Char.isDigit = true →
    ∀ v ∈ stems, v.toList.isPrefixOf w.toList = true →
      (w.toList.drop v.toList.length).all Char.isDigit = true → v = w := by
  decide +kernel

theorem stems_prefix_free {v w : String} (hv : v ∈ stems) (hw : w ∈ stems)
    (hstart : v.toList.isPrefixOf w.toList = true)
    (hdigits : (w.toList.drop v.toList.length).all Char.isDigit = true) : v = w := by
  obtain ⟨rest, hrest⟩ := isPrefixOf_iff_prefix.mp hstart
  have hdrop : w.toList.drop v.toList.length = rest := by rw [← hrest, drop_left]
  cases hlast : rest.getLast? with
  | none =>
    rw [getLast?_eq_none_iff.mp hlast, append_nil] at hrest
    exact String.toList_injective hrest
  | some c =>
    -- only a word that ends with a digit can be a word with digits behind it
    have hdigit : c.isDigit = true := all_eq_true.mp (hdrop ▸ hdigits) c (mem_of_getLast? hlast)
    refine numbered_stems_prefix_free w hw ?_ v hv hstart hdigits
    rw [← hrest, getLast?_append, hlast]
    exact hdigit

theorem isDigit_of_mem_natText {n : Nat} {c : Char} (h : c ∈ (natText n).toList) : c.isDigit = true := by
  unfold natText at h
  rw [toList_ofList] at h
  exact Nat.isDigit_of_mem_toDigits (by decide) (by decide) h

theorem suffixed_notMem_stems {v : String} (hv : v ∈ stems) (n : Nat) : Resolver.suffixed v n ∉ stems := by
  intro hmem
  have htext : (Resolver.suffixed v n).toList = v.toList ++ (natText n).toList := toList_append
  have heq : v = Resolver.suffixed v n := by
    refine stems_prefix_free hv hmem ?_ ?_
    · rw [htext, isPrefixOf_iff_prefix]
      exact prefix_append _ _
    · rw [htext, drop_left, all_eq_true]
      exact fun c hc => isDigit_of_mem_natText hc
  rw [← heq] at htext
  have hnil : (natText n).toList = [] := List.self_eq_append_right.mp htext
  unfold natText at hnil
  rw [toList_ofList] at hnil
  exact Nat.toDigits_ne_nil hnil

theorem stem_unique {v w : String} (hv : v ∈ stems) (hw : w ∈ stems) {a b : Nat}
    (h : Resolver.suffixed v a = Resolver.suffixed w b) : v = w := by
  -- the longer of the two words is the shorter one with digits behind it
  have hlonger : ∀ {v w : String} {a b : Nat}, v ∈ stems → w ∈ stems →
      (∃ cs, w.toList = v.toList ++ cs ∧ (natText a).toList = cs ++ (natText b).toList) → v = w := by
    rintro v w a b hv hw ⟨cs, hcs, hdig⟩
    refine stems_prefix_free hv hw ?_ ?_
    · rw [hcs, isPrefixOf_iff_prefix]
      exact prefix_append _ _
    · rw [hcs, drop_left, all_eq_true]
      exact fun c hc => isDigit_of_mem_natText (hdig ▸ mem_append_left _ hc)
  have h' := congrArg toList h
  unfold Resolver.suffixed at h'
  rw [toList_append, toList_append, append_eq_append_iff] at h'
  rcases h' with h' | h'
  · exact hlonger hv hw h'
  · exact (hlonger hw hv h').symm

/-! ## Resolving -/

theorem isReservedTask_of_forbids {name : String} : ∀ {use : NameUse}, use.forbids name = true →
    isReservedTask name = true
  | .variable, h => by
    have h' : isReserved name = true := h
    unfold isReservedTask
    rw [h', Bool.or_true]
  | .task, h => h

namespace Resolver

def blocked (r : Resolver) : List String := Name.texts r.taken ++ entryName :: reservedWords

theorem isFree_iff : r.isFree s = true ↔ s ∉ r.blocked := by
  unfold isFree blocked isTaken isReservedTask isReserved
  rw [Bool.not_eq_true', Bool.or_eq_false_iff, Bool.or_eq_false_iff, mem_append, mem_cons,
    not_or, not_or, Name.mem_texts, ← Name.isIn_text_iff, Bool.not_eq_true, beq_eq_false_iff_ne,
    ← contains_iff_mem, Bool.not_eq_true]

theorem length_blocked_lt (r : Resolver) : r.blocked.length < r.searchBound := by
  unfold blocked searchBound
  rw [List.length_append, length_cons]
  have := Name.length_texts_le r.taken
  omega

theorem isFree_freshName (r : Resolver) (name : String) : r.isFree (r.freshName name) = true := by
  obtain ⟨k, hk, hfree⟩ := exists_free name 2 r.length_blocked_lt
  exact (leastFrom_spec (fun n => r.isFree (suffixed name n)) hk (isFree_iff.mpr hfree)).1

def spell (r : Resolver) (use : NameUse) (name : String) : String :=
  if use.forbids name && r.policy == .rename then r.freshName name else name

/-- **A later state of a resolver** that had renamed nothing: what it has renamed is what the first one
would rename it to, and only that is taken besides. -/
structure Sound (r₀ r : Resolver) : Prop where
  policy : r.policy = r₀.policy
  subset : r₀.taken ⊆ r.taken
  taken : ∀ s, .text s ∈ r.taken ↔ .text s ∈ r₀.taken ∨ ∃ word, r.renamed.get? word = some s
  renamed : ∀ {word s}, r.renamed.get? word = some s →
    isReservedTask word = true ∧ s = r₀.freshName word

theorem Sound.refl (h : r.renamed = []) : r.Sound r where
  policy := rfl
  subset := List.Subset.refl _
  taken := by simp [h]
  renamed := by simp [h]

theorem Sound.freshName_eq (h : r₀.Sound r) (hw : isReservedTask word = true)
    (hnew : r.renamed.get? word = none) : r.freshName word = r₀.freshName word := by
  have hfree : ∀ n, r.isFree (suffixed word n) = r₀.isFree (suffixed word n) := by
    intro n
    unfold isFree isTaken
    have htaken : (Name.text (suffixed word n)).isIn r.taken = (Name.text (suffixed word n)).isIn r₀.taken := by
      rw [Bool.eq_iff_iff, Name.isIn_text_iff, Name.isIn_text_iff, h.taken]
      refine ⟨fun hor => hor.resolve_right ?_, .inl⟩
      -- the new name of another word cannot be this word with a number behind it
      rintro ⟨word', hren⟩
      obtain ⟨hw', heq⟩ := h.renamed hren
      have : word = word' := stem_unique (mem_stems_of_isReservedTask hw) (mem_stems_of_isReservedTask hw') heq
      rw [← this, hnew] at hren
      cases hren
    rw [htaken]
  obtain ⟨k, hk, hk'⟩ := exists_free word 2 r.length_blocked_lt
  obtain ⟨k₀, hk₀, hk₀'⟩ := exists_free word 2 r₀.length_blocked_lt
  unfold freshName
  exact congrArg _ (leastFrom_congr hfree hk (isFree_iff.mpr hk') hk₀ (isFree_iff.mpr hk₀'))

theorem Sound.rename (h : r₀.Sound r) (hw : isReservedTask word = true) :
    r₀.Sound { r.reserve (r₀.freshName word) with
      renamed := r.renamed.insert word (r₀.freshName word) } := by
  have hreserve : ∀ s, Name.text s ∈ (r.reserve (r₀.freshName word)).taken
      ↔ Name.text s ∈ r.taken ∨ s = r₀.freshName word := by
    intro s
    unfold reserve isTaken
    split
    · next hin =>
      rw [Name.isIn_text_iff] at hin
      exact ⟨.inl, fun hor => hor.elim id fun e => e ▸ hin⟩
    · rw [mem_cons, Name.text.injEq, or_comm]
  have hget : ∀ {w s}, (r.renamed.insert word (r₀.freshName word)).get? w = some s
      ↔ if word = w then s = r₀.freshName word else r.renamed.get? w = some s := by
    intro w s
    rw [Table.get?_insert]
    split
    · rw [Option.some.injEq, eq_comm]
    · rfl
  constructor
  · show (r.reserve (r₀.freshName word)).policy = r₀.policy
    unfold reserve
    split <;> exact h.policy
  · show r₀.taken ⊆ (r.reserve (r₀.freshName word)).taken
    unfold reserve
    split
    · exact h.subset
    · exact subset_cons_of_subset _ h.subset
  · intro s
    show Name.text s ∈ (r.reserve (r₀.freshName word)).taken ↔ _
    rw [hreserve, h.taken]
    constructor
    · rintro ((hs | ⟨w, hs⟩) | rfl)
      · exact .inl hs
      · by_cases e : word = w
        · exact .inr ⟨w, hget.mpr (by rw [if_pos e, e]; exact (h.renamed hs).2)⟩
        · exact .inr ⟨w, hget.mpr (by rw [if_neg e]; exact hs)⟩
      · exact .inr ⟨word, hget.mpr (by rw [if_pos rfl])⟩
    · rintro (hs | ⟨w, hs⟩)
      · exact .inl (.inl hs)
      · rw [hget] at hs
        split at hs
        · exact .inr hs
        · exact .inl (.inr ⟨w, hs⟩)
  · intro w s hs
    rw [hget] at hs
    split at hs
    · next e => exact e ▸ ⟨hw, hs⟩
    · exact h.renamed hs

/-- **What a name is resolved to** is settled from the start: the name is refused if it is reserved and
the policy is to refuse, and else its spelling is what the first resolver says. -/
theorem Sound.resolve (h : r₀.Sound r) (use : NameUse) (name : String) :
    if use.forbids name = true ∧ r₀.policy = .reject then r.resolve use name = .error ⟨name, use⟩
    else ∃ r', r₀.Sound r' ∧ r.resolve use name = .ok (r₀.spell use name, r') := by
  unfold Resolver.resolve spell
  cases hf : use.forbids name with
  | false => exact ⟨r, h, rfl⟩
  | true =>
    have hw := isReservedTask_of_forbids hf
    cases hp : r₀.policy with
    | reject =>
      rw [if_pos ⟨rfl, rfl⟩, h.policy, hp]
      rfl
    | rename =>
      rw [if_neg (fun h => by cases h.2), h.policy, hp]
      cases hget : r.renamed.get? name with
      | some new =>
        refine ⟨r, h, ?_⟩
        rw [(h.renamed hget).2]
        rfl
      | none =>
        refine ⟨_, h.rename hw, ?_⟩
        rw [h.freshName_eq hw hget]
        rfl

theorem spell_injective {use : NameUse} {a b : String} (ha : .text a ∈ r.taken)
    (hb : .text b ∈ r.taken) (h : r.spell use a = r.spell use b) : a = b := by
  -- a new name is not in use
  have hfresh : ∀ {s t : String}, Name.text s ∈ r.taken → s ≠ r.freshName t := by
    rintro s t hs rfl
    have := isFree_iff.mp (r.isFree_freshName t)
    exact this (mem_append_left _ (Name.mem_texts.mpr hs))
  unfold spell at h
  split at h
  · next hfa =>
    split at h
    · next hfb =>
      rw [Bool.and_eq_true] at hfa hfb
      exact stem_unique (mem_stems_of_isReservedTask (isReservedTask_of_forbids hfa.1))
        (mem_stems_of_isReservedTask (isReservedTask_of_forbids hfb.1)) h
    · exact absurd h.symm (hfresh hb)
  · split at h
    · exact absurd h (hfresh ha)
    · exact h

end Resolver

end NqcBlocks
