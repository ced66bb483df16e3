import NqcBlocks.Graph.Node
import NqcBlocks.Naming.Resolver

/-!
# Scopes

The variables of one task, or of the part of a program outside all tasks, in the order in which they
were first used. A loop whose count has to be computed first gets a variable of its own in the scope,
`repeat_bound_1` and so on, which no name of the program and no other loop of the scope has.
-/

namespace NqcBlocks

inductive ScopeKey where
  | main
  | global
  | task (name : String)
  deriving DecidableEq, Repr, Inhabited

def ScopeKey.text : ScopeKey → String
  | .main => "main"
  | .global => "global"
  | .task name => if name.isEmpty then "task" else "task:" ++ name

inductive ScopeError where
  | emptyName (scope : ScopeKey)
  | alreadyOpen (scope current : ScopeKey)
  | outside (name : String)
  | unknown (scope : ScopeKey)
  | noneOpen
  | loopOutside (loop : Node)
  deriving Repr

def ScopeError.message : ScopeError → String
  | .emptyName scope =>
    "Cannot register an empty variable name in scope \"" ++ scope.text ++ "\"."
  | .alreadyOpen scope current =>
    "Cannot open scope \"" ++ scope.text ++ "\" while \"" ++ current.text
      ++ "\" is open; tasks cannot be nested."
  | .outside name => "Variable \"" ++ name ++ "\" used outside of any scope."
  | .unknown scope => "Scope \"" ++ scope.text ++ "\" is not known (already closed?)."
  | .noneOpen => "No scope is open."
  | .loopOutside loop => "Counted loop " ++ loop.label ++ " rendered outside of any scope."

structure Scope where
  key : ScopeKey
  names : List Name := []
  auxiliary : List (Handle × String) := []
  deriving Repr, Inhabited

namespace Scope

def contains (s : Scope) (name : Name) : Bool := name.isIn s.names

def register (s : Scope) (name : Name) : Except ScopeError (Bool × Scope) :=
  if name.isEmpty then .error (.emptyName s.key)
  else if s.contains name then .ok (false, s)
  else .ok (true, { s with names := s.names ++ [name] })

def auxiliaryName? (s : Scope) (loop : Handle) : Option String :=
  (s.auxiliary.find? fun a => a.1 == loop).map (·.2)

def boundName (n : Nat) : String := Resolver.suffixed "repeat_bound_" n

def isFreeBound (s : Scope) (names : Resolver) (candidate : String) : Bool :=
  !s.contains candidate && names.isFree candidate

def allocate (s : Scope) (loop : Handle) (names : Resolver) : String × Scope :=
  match s.auxiliaryName? loop with
  | some name => (name, s)
  | none =>
    let n := Resolver.leastFrom (fun n => s.isFreeBound names (boundName n)) 1
      (s.names.length + names.searchBound)
    let name := boundName n
    (name, { s with
      auxiliary := s.auxiliary ++ [(loop, name)], names := s.names ++ [.text name] })

def declarations (s : Scope) (margin : String) : String :=
  if s.names.isEmpty then ""
  else String.join (s.names.map fun name => margin ++ "int " ++ name.plain ++ ";\n") ++ "\n"

end Scope

end NqcBlocks
