import NqcBlocks.Block.Builtin

/-!
# The catalogue of kinds

The kinds a graph may hold: the built-in ones and those registered on top of them. Registered kinds
come after the built-in ones, in order of registration, and only they can be removed again.
-/

namespace NqcBlocks

structure Catalog where
  extensions : List BlockSpec := []
  deriving Repr, Inhabited

inductive CatalogError where
  | alreadyRegistered (kind : BlockKind)
  | builtinKind (kind : BlockKind)
  deriving DecidableEq, Repr

def CatalogError.message : CatalogError → String
  | .alreadyRegistered kind => "Block kind \"" ++ kind.tag ++ "\" is already registered."
  | .builtinKind kind => "Built-in block kind \"" ++ kind.tag ++ "\" cannot be removed."

namespace Catalog

def builtin : Catalog := {}

def spec? (c : Catalog) (kind : BlockKind) : Option BlockSpec :=
  (Builtin.spec? kind).or (c.extensions.find? fun s => s.kind == kind)

def kinds (c : Catalog) : List BlockKind :=
  BlockKind.builtin ++ c.extensions.map (·.kind)

def register (c : Catalog) (spec : BlockSpec) : Except CatalogError Catalog :=
  if (c.spec? spec.kind).isSome then .error (.alreadyRegistered spec.kind)
  else .ok { extensions := c.extensions ++ [spec] }

def unregister (c : Catalog) (kind : BlockKind) : Except CatalogError Catalog :=
  if kind.isBuiltin then .error (.builtinKind kind)
  else .ok { extensions := c.extensions.filter fun s => s.kind != kind }

end Catalog

end NqcBlocks
