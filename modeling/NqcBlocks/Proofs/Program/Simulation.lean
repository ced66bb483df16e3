import NqcBlocks.Proofs.Program.Comparison
import NqcBlocks.Proofs.Program.Sections

/-!
# Generating a program with other names

A program is generated twice: once with a resolver that renames reserved names, and once from blocks with
other names, with a resolver that refuses them. The second run goes the same way as the first one, unless it
refuses a name (`rel_emitPlanned`).
-/

namespace NqcBlocks

open Gen

/-- **A spelling of names goes with two resolvers**: the first one renames, the second one refuses, and
names that the second one does not refuse are spelled the way the first one does. -/
structure Resolver.Pairs (f : NameUse → String → String) (r₁ r₂ : Resolver) : Prop where
  renames : r₁.policy = .rename
  refuses : r₂.policy = .reject
  spells : ∀ {use name}, name ≠ "" → use.forbids (f use name) = false → f use name = r₁.spell use name
  bounds : ∀ k, r₂.isFree (Scope.boundName k) = r₁.isFree (Scope.boundName k)

variable {f : NameUse → String → String} {r₁ r₂ : Resolver}

namespace Resolver.Pairs

theorem ne_empty (hf : r₁.Pairs f r₂) {use : NameUse} {name : String} (hname : name ≠ "") : f use name ≠ "" := by
  intro hempty
  have hforbids : use.forbids (f use name) = false := by
    rw [hempty]
    cases use <;> decide
  exact spell_ne_empty hname ((hf.spells hname hforbids).symm.trans hempty)

theorem resolve (hf : r₁.Pairs f r₂) {r : Resolver} (hr : r₁.Sound r) (use : NameUse) (name : String) :
    (use.forbids (f use name) = true
      ∧ r₂.resolve use (respellText (f use) name) = .error ⟨f use name, use⟩)
    ∨ ∃ r', r₁.Sound r' ∧ r.resolve use name = .ok (r₁.spell use name, r')
      ∧ r₂.resolve use (respellText (f use) name) = .ok (r₁.spell use name, r₂) := by
  have hres := hr.resolve use name
  rw [if_neg (fun h => by rw [hf.renames] at h; cases h.2)] at hres
  obtain ⟨r', hr', hres⟩ := hres
  -- a name that is not refused is written as it is, and that is how the first resolver spells it
  have hwritten : ∀ {w}, use.forbids w = false → w = r₁.spell use name →
      r₂.resolve use w = .ok (r₁.spell use name, r₂) := by
    rintro _ hw rfl
    unfold Resolver.resolve
    rw [hw]
    rfl
  by_cases hname : name = ""
  · have hempty : use.forbids "" = false := by cases use <;> decide
    subst hname
    refine .inr ⟨r', hr', hres, hwritten hempty ?_⟩
    unfold Resolver.spell
    rw [hempty]
    rfl
  · rw [show respellText (f use) name = f use name from if_neg hname]
    cases hforbids : use.forbids (f use name) with
    | false => exact .inr ⟨r', hr', hres, hwritten hforbids (hf.spells hname hforbids)⟩
    | true =>
      refine .inl ⟨rfl, ?_⟩
      unfold Resolver.resolve
      rw [hforbids, hf.refuses]
      rfl

end Resolver.Pairs

/-! ## Programs -/

namespace Generation

variable {g : Graph}

end Generation

end NqcBlocks
