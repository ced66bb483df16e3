/-!
# Tables

Named entries in the order in which their names first came up. Writing to a name that is already
there replaces its value and keeps its place, which is the rule for the members of a document's
objects, for the fields of a block and for its shape parameters.
-/

namespace NqcBlocks

/-- Values by name, in order of first appearance. -/
abbrev Table (β : Type) := List (String × β)

namespace Table

variable {β : Type}

def get? (name : String) : Table β → Option β
  | [] => none
  | (k, v) :: rest => if k == name then some v else get? name rest

def contains (t : Table β) (name : String) : Bool := (t.get? name).isSome

def insert (name : String) (value : β) : Table β → Table β
  | [] => [(name, value)]
  | (k, v) :: rest => if k == name then (k, value) :: rest else (k, v) :: insert name value rest

def ofEntries (entries : List (String × β)) : Table β :=
  entries.foldl (fun t e => insert e.1 e.2 t) []

def names (t : Table β) : List String := t.map (·.1)

theorem mem_of_get? {name : String} {v : β} : ∀ {t : Table β}, t.get? name = some v →
    (name, v) ∈ t
  | [], h => by simp [get?] at h
  | (k, w) :: rest, h => by
    rw [get?] at h
    split at h
    · next hk => simp_all
    · exact List.mem_cons_of_mem _ (mem_of_get? h)

end Table

end NqcBlocks
