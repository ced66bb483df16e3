import NqcBlocks.Naming.Name
import NqcBlocks.Naming.Reserved

/-!
# Resolving names

The names that a person gives to variables and tasks are written into the program as they are unless
they are reserved. What happens to a reserved one is a matter of **policy**: either the program is
refused, or the name gets the lowest number from two on as a suffix that makes it neither reserved nor
taken. A resolver remembers what it has renamed, so that a name is resolved alike wherever it occurs.
-/

namespace NqcBlocks

inductive ReservedPolicy where
  | reject
  | rename
  deriving DecidableEq, Repr, Inhabited

namespace ReservedPolicy

def name : ReservedPolicy → String
  | .reject => "reject"
  | .rename => "rename"

def all : List ReservedPolicy := [.reject, .rename]

def ofName? (name : String) : Option ReservedPolicy := all.find? fun p => p.name == name

end ReservedPolicy

inductive NameUse where
  | variable
  | task
  deriving DecidableEq, Repr

def NameUse.word : NameUse → String
  | .variable => "variable"
  | .task => "task"

def NameUse.forbids : NameUse → String → Bool
  | .variable => isReserved
  | .task => isReservedTask

structure ReservedNameError where
  name : String
  use : NameUse
  deriving DecidableEq, Repr

def ReservedNameError.message (e : ReservedNameError) : String :=
  "The " ++ e.use.word ++ " name \"" ++ e.name
    ++ "\" is reserved in NQC. Choose a different name."

structure Resolver where
  policy : ReservedPolicy
  taken : List Name := []
  renamed : Table String := []
  deriving Repr, Inhabited

namespace Resolver

def isTaken (r : Resolver) (name : Name) : Bool := name.isIn r.taken

def reserve (r : Resolver) (name : Name) : Resolver :=
  if r.isTaken name then r else { r with taken := name :: r.taken }

def isFree (r : Resolver) (candidate : String) : Bool :=
  !(r.isTaken candidate || isReservedTask candidate)

def suffixed (name : String) (n : Nat) : String := name ++ Number.natText n

def leastFrom (accepts : Nat → Bool) (start bound : Nat) : Nat :=
  (((List.range bound).map (start + ·)).find? accepts).getD (start + bound)

def searchBound (r : Resolver) : Nat := r.taken.length + reservedWords.length + 2

def freshName (r : Resolver) (name : String) : String :=
  suffixed name (leastFrom (fun n => r.isFree (suffixed name n)) 2 r.searchBound)

def resolve (r : Resolver) (use : NameUse) (name : String) :
    Except ReservedNameError (String × Resolver) :=
  if !use.forbids name then .ok (name, r)
  else match r.policy with
    | .reject => .error ⟨name, use⟩
    | .rename => match r.renamed.get? name with
      | some new => .ok (new, r)
      | none =>
        let new := r.freshName name
        .ok (new, { r.reserve new with renamed := r.renamed.insert name new })

def resolveName (r : Resolver) (use : NameUse) :
    Name → Except ReservedNameError (Name × Resolver)
  | .text s => (r.resolve use s).map fun (new, r) => (.text new, r)
  | .value v => .ok (.value v, r)

end Resolver

end NqcBlocks
