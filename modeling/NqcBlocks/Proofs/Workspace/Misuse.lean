import NqcBlocks.Proofs.Workspace.Growth

/-!
# Documents with parts of the wrong type

Most that can be wrong with a workspace is told in words. What is not are parts of an entry that cannot
give what is asked of them: members of something that is no object, what is behind a key in something that
has no keys, the whole part of an infinite number. `Misused` says of an entry, by the types of its parts
alone, what of this is wrong with it.
-/

namespace NqcBlocks

open Json

variable {e : Editor} {what : Misuse}

namespace Workspace

/-! ## Entries of the wrong type -/

def allowsMembers : Json → Bool
  | .object _ => true
  | j => !j.isTruthy

def isKey : Json → Bool
  | .list _ | .object _ => false
  | _ => true

def answersFor (key : String) (j : Json) : Bool :=
  !j.isTruthy || match j with
    | .object _ => true
    | .text s => (s.splitOn key).length ≤ 1
    | .list items => items.all fun i => i.text? != some key
    | _ => false

def isInfinite : Json → Bool
  | .number (.double (.infinite _)) => true
  | _ => false

def statedRemark (entry : Json) : Json :=
  match member (membersIn entry) "comment" with
  | .object inner => member inner "text"
  | j => j

def Misread (entry : Json) : Misuse → Prop
  | .members =>
    allowsMembers (member (membersIn entry) "fields") = false
    ∨ statedRemark entry = .null ∧ (allowsMembers (member (membersIn entry) "icons") = false
      ∨ allowsMembers (member (membersIn (member (membersIn entry) "icons")) "comment") = false)
  | .lookup =>
    isKey (member (membersIn entry) "type") = false
    ∨ ∃ key ∈ ["elseIfCount", "hasElse"], answersFor key (member (membersIn entry) "extraState") = false
  | .magnitude =>
    isInfinite (member (membersIn (member (membersIn entry) "extraState")) "elseIfCount") = true

def Misused (entry : Json) (what : Misuse) : Prop :=
  Misread entry what ∨ what = .members ∧ allowsMembers (member (membersIn entry) "inputs") = false

/-! ## Accounting for steps -/

section Accounted

variable {α β : Type} {Q R : Misuse → Prop}

/-- **A step is accounted for** by some faults: it ends well only if there are none, and if it ends with a
misuse, then that is one of them. -/
def Accounted (r : Except LoadError α) (Q : Misuse → Prop) : Prop :=
  match r with
  | .ok _ => ∀ what, ¬Q what
  | .error (.misuse what) => Q what
  | .error _ => True

theorem accounted_ok (a : α) : Accounted (.ok a) fun _ => False := fun _ h => h

variable {r : Except LoadError α} {f : α → Load β} {x : Load α}

theorem Accounted.congr (h : Accounted r Q) (hiff : ∀ what, Q what ↔ R what) :
    Accounted r R := by
  rwa [← funext fun what => propext (hiff what)]

theorem Accounted.bind {f : α → Except LoadError β} (h : Accounted r Q)
    (hf : ∀ a, r = .ok a → Accounted (f a) R) : Accounted (r >>= f) fun what => Q what ∨ R what := by
  cases r with
  | error cause =>
    cases cause with
    | misuse what => exact .inl h
    | _ => exact trivial
  | ok a =>
    refine (hf a rfl).congr fun what => ?_
    exact (or_iff_right (h what)).symm

theorem Accounted.step (h : Accounted (x.run.run e).1 Q)
    (hf : ∀ a e₁, Gives x e a e₁ → Accounted ((f a).run.run e₁).1 R) :
    Accounted ((x >>= f).run.run e).1 fun what => Q what ∨ R what := by
  rw [ExceptT.run_bind, StateT.run_bind]
  rcases hx : x.run.run e with ⟨r, e₁⟩
  rw [hx] at h
  cases r with
  | error cause =>
    cases cause with
    | misuse what => exact .inl h
    | _ => exact trivial
  | ok a =>
    refine (hf a e₁ hx).congr fun what => ?_
    exact (or_iff_right (h what)).symm

theorem Accounted.get {f : Editor → Load β} (h : Accounted ((f e).run.run e).1 Q) :
    Accounted ((MonadState.get >>= f).run.run e).1 Q := h

theorem Accounted.step_of_false (h : Accounted (x.run.run e).1 Q)
    (hf : ∀ a e₁, Accounted ((f a).run.run e₁).1 fun _ => False) : Accounted ((x >>= f).run.run e).1 Q :=
  (h.step fun a e₁ _ => hf a e₁).congr fun _ => or_iff_left id

end Accounted

/-! ## Reading an entry -/

mutual
def Outline.entries : Outline → List Json
  | .mk entry inputs => entry :: entriesBehind inputs
def entriesBehind : List (String × List Outline) → List Json
  | [] => []
  | (_, chain) :: rest => entriesOf chain ++ entriesBehind rest
def entriesOf : List Outline → List Json
  | [] => []
  | o :: rest => o.entries ++ entriesOf rest
end

mutual
theorem Outline.map_entry_place : ∀ (o : Outline) (h : Handle) (parent : Option Place) (next : Option Handle),
    (o.place h parent next).map (·.entry) = o.entries
  | .mk entry inputs, h, parent, next => by
    rw [Outline.place, Outline.entries, List.map_cons, map_entry_placeInputs]
theorem map_entry_placeInputs : ∀ (inputs : List (String × List Outline)) (owner h : Handle),
    (placeInputs owner h inputs).map (·.entry) = entriesBehind inputs
  | [], _, _ => rfl
  | (slot, chain) :: rest, owner, h => by
    rw [placeInputs, entriesBehind, List.map_append, map_entry_placeChain, map_entry_placeInputs]
theorem map_entry_placeChain : ∀ (chain : List Outline) (h : Handle) (parent : Option Place),
    (placeChain h parent chain).map (·.entry) = entriesOf chain
  | [], _, _ => rfl
  | o :: rest, h, parent => by
    rw [placeChain, entriesOf, List.map_append, o.map_entry_place, map_entry_placeChain]
end

/-! ## Building blocks -/

def MisusedIn (entries : List Json) (what : Misuse) : Prop := ∃ entry ∈ entries, Misused entry what

variable {entry : Json} {entries : List Json}

theorem misusedIn_append {entries' : List Json} :
    MisusedIn (entries ++ entries') what ↔ MisusedIn entries what ∨ MisusedIn entries' what := by
  simp only [MisusedIn, List.mem_append, or_and_right, exists_or]

def AccountsBlock (entry : Json) : Prop := ∀ {e : Editor}, Idle e →
  Accounted ((buildBlock entry).run.run e).1 (MisusedIn (outline entry).entries)

def AccountsNext (entry : Json) : Prop := ∀ {e : Editor} {previous : Handle}, Idle e →
  Accounted ((buildNext previous entry).run.run e).1 (MisusedIn (entriesOf (outlineNext entry)))

/-- **Building an entry** is accounted for by the entries that it describes. -/
structure AccountedFor (entry : Json) : Prop where
  block : AccountsBlock entry
  next : AccountsNext entry

theorem AccountedFor.chain (hentry : AccountedFor entry) (he : Idle e) :
    Accounted ((buildChain entry).run.run e).1 (MisusedIn (entriesOf (outlineChain entry))) := by
  rw [buildChain, outlineChain, entriesOf]
  refine ((hentry.block he).step fun h e₁ hblock => ?_).congr fun what => misusedIn_append.symm
  have hidle := ((builds entry).block he hblock none none).1.grows.toIdle
  exact Accounted.step_of_false (hentry.next hidle) fun _ _ => accounted_ok _

end Workspace

end NqcBlocks
