import NqcBlocks.Proofs.Naming.Resolver

/-!
# Questions to a resolver

A resolver that renames is asked many times while a program is written: what to write for the name of a variable or
of a task, and whether a name is in use. Each new name that it gives changes it. Still, the answers do not depend
on which questions came before, as long as all of them are about names in use (`answers_fixed`): every state of the
resolver answers as the first one does (`Sound.ask`), and so does every run of questions (`Sound.askAll`).
-/

namespace NqcBlocks.Resolver

/-- **A question to a resolver.** -/
inductive Query where
  | resolve (use : NameUse) (name : Name)
  | isTaken (name : Name)

def Query.name : Query → Name
  | .resolve _ name | .isTaken name => name

/-- **An answer of a resolver.** -/
inductive Answer where
  | written (name : Name)
  | taken (answer : Bool)

def ask (r : Resolver) : Query → Except ReservedNameError (Answer × Resolver)
  | .resolve use name => (r.resolveName use name).map fun (new, r) => (.written new, r)
  | .isTaken name => .ok (.taken (r.isTaken name), r)

def askAll (r : Resolver) : List Query → Except ReservedNameError (List Answer × Resolver)
  | [] => .ok ([], r)
  | q :: qs => do
    let (answer, r) ← r.ask q
    let (answers, r) ← r.askAll qs
    pure (answer :: answers, r)

def spellName (r : Resolver) (use : NameUse) : Name → Name
  | .text s => .text (r.spell use s)
  | .value v => .value v

def Query.answer (spelling : NameUse → Name → Name) : Query → Answer
  | .resolve use name => .written (spelling use name)
  | .isTaken _ => .taken true

variable {r r₀ : Resolver} {q : Query} {qs : List Query}

theorem isTaken_mono {r' : Resolver} (hsub : r.taken ⊆ r'.taken) {name : Name} (h : r.isTaken name = true) :
    r'.isTaken name = true := by
  obtain ⟨n, hn, hsame⟩ := List.any_eq_true.mp h
  exact List.any_eq_true.mpr ⟨n, hsub hn, hsame⟩

theorem Sound.ask (h : r₀.Sound r) (hpolicy : r₀.policy = .rename) (hq : r₀.isTaken q.name = true) :
    ∃ r', r₀.Sound r' ∧ r.ask q = .ok (q.answer r₀.spellName, r') := by
  cases q with
  | isTaken name =>
    have htaken : r.isTaken name = true := isTaken_mono h.subset hq
    refine ⟨r, h, ?_⟩
    rw [Resolver.ask, htaken]
    rfl
  | resolve use name =>
    cases name with
    | value v => exact ⟨r, h, rfl⟩
    | text s =>
      have hresolve := h.resolve use s
      rw [if_neg (fun hreject => by rw [hpolicy] at hreject; cases hreject.2)] at hresolve
      obtain ⟨r', hsound, heq⟩ := hresolve
      refine ⟨r', hsound, ?_⟩
      rw [Resolver.ask, resolveName, heq]
      rfl

theorem Sound.askAll (hpolicy : r₀.policy = .rename) : ∀ {qs : List Query} {r : Resolver}, r₀.Sound r →
    (∀ q ∈ qs, r₀.isTaken q.name = true) →
      ∃ r', r₀.Sound r' ∧ r.askAll qs = .ok (qs.map (Query.answer r₀.spellName), r')
  | [], r, h, _ => ⟨r, h, rfl⟩
  | q :: qs, r, h, hqs => by
    obtain ⟨hq, hqs⟩ := List.forall_mem_cons.mp hqs
    obtain ⟨r₁, h₁, hask⟩ := h.ask hpolicy hq
    obtain ⟨r₂, h₂, hrest⟩ := Sound.askAll hpolicy h₁ hqs
    refine ⟨r₂, h₂, ?_⟩
    rw [Resolver.askAll, hask]
    show (do let (answers, r) ← r₁.askAll qs; pure (_ :: answers, r)) = _
    rw [hrest]
    rfl

theorem same_of_spellName {use : NameUse} {a b : Name} (ha : r.isTaken a = true) (hb : r.isTaken b = true)
    (h : (r.spellName use a).same (r.spellName use b) = true) : a.same b = true := by
  cases a with
  | value u => cases b with
    | value v => exact h
    | text t => cases h
  | text s => cases b with
    | value v => cases h
    | text t =>
      rw [isTaken, Name.isIn_text_iff] at ha hb
      have hspell : r.spell use s = r.spell use t := beq_iff_eq.mp h
      rw [spell_injective ha hb hspell, Name.same_text, beq_self_eq_true]

theorem exists_isFree (r : Resolver) (word : String) :
    ∃ n, 2 ≤ n ∧ n < 2 + r.searchBound ∧ r.isFree (suffixed word n) = true := by
  obtain ⟨k, hk, hfree⟩ := exists_free word 2 r.length_blocked_lt
  exact ⟨2 + k, by omega, by omega, isFree_iff.mpr hfree⟩

theorem freshName_least (r : Resolver) (word : String) : ∃ n, 2 ≤ n ∧ r.freshName word = suffixed word n
    ∧ r.isFree (suffixed word n) = true ∧ ∀ m, 2 ≤ m → m < n → r.isFree (suffixed word m) = false := by
  obtain ⟨k, hk, hfree⟩ := exists_free word 2 r.length_blocked_lt
  obtain ⟨haccepts, hle, hleast⟩ := leastFrom_spec (fun n => r.isFree (suffixed word n)) hk (isFree_iff.mpr hfree)
  exact ⟨_, hle, rfl, haccepts, hleast⟩

/-- **Names are resolved alike in any order, apart from each other, and to the least number.** Whatever names are in
use, there is one way to write names such that all questions about names in use, in any order and however often they
are asked, are answered by it; and in each state that this leads to, a search for a suffix finds one. Different
names in use are written differently. A name that is not reserved is written as it is, and one that is gets the least
number from two on with which it is neither in use nor reserved as the name of a task. -/
theorem answers_fixed (taken : List Name) : ∃ spelling : NameUse → Name → Name,
    (∀ qs : List Query, (∀ q ∈ qs, q.name.isIn taken = true) →
      ∃ r, askAll { policy := .rename, taken } qs = .ok (qs.map (Query.answer spelling), r)
        ∧ ∀ word, ∃ n, 2 ≤ n ∧ n < 2 + r.searchBound ∧ r.isFree (suffixed word n) = true)
    ∧ (∀ use a b, a.isIn taken = true → b.isIn taken = true → (spelling use a).same (spelling use b) = true →
      a.same b = true)
    ∧ (∀ use s, use.forbids s = false → spelling use (.text s) = .text s)
    ∧ (∀ use v, spelling use (.value v) = .value v)
    ∧ ∀ use s, use.forbids s = true → ∃ n, 2 ≤ n ∧ spelling use (.text s) = .text (suffixed s n)
      ∧ (.text (suffixed s n) ∉ taken ∧ isReservedTask (suffixed s n) = false)
      ∧ ∀ m, 2 ≤ m → m < n → ¬ (.text (suffixed s m) ∉ taken ∧ isReservedTask (suffixed s m) = false) := by
  have hfree : ∀ w, isFree { policy := .rename, taken } w = true
      ↔ .text w ∉ taken ∧ isReservedTask w = false := by
    intro w
    rw [isFree, Bool.not_eq_true', Bool.or_eq_false_iff, isTaken, Bool.eq_false_iff, ne_eq, Name.isIn_text_iff]
  refine ⟨spellName { policy := .rename, taken }, fun qs hqs => ?_, fun use a b ha hb h => ?_, fun use s hs => ?_,
    fun use v => rfl, fun use s hs => ?_⟩
  · obtain ⟨r, -, hall⟩ := Sound.askAll (show policy { policy := .rename, taken } = _ from rfl) (.refl rfl) hqs
    exact ⟨r, hall, r.exists_isFree⟩
  · exact same_of_spellName (r := { policy := .rename, taken }) ha hb h
  · rw [spellName, spell, hs]
    rfl
  · obtain ⟨n, hn, hnew, hopen, hleast⟩ := freshName_least { policy := .rename, taken } s
    refine ⟨n, hn, ?_, (hfree _).mp hopen, fun m hm hlt hmfree => ?_⟩
    · rw [spellName, spell, hs, ← hnew]
      rfl
    · rw [← hfree, hleast m hm hlt] at hmfree
      cases hmfree

end NqcBlocks.Resolver
