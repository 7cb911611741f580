/-!
# Names in use

A set of names that are taken, and the allocation of new ones. The name allocated for a base is the
base itself if it is free, and otherwise the base with the least number from two on that makes it
free. Among one more candidate than there are names in the set, one is free.
-/

namespace AbiBindings.TypeScript

/-- A set of names, each listed once. -/
structure NameSet where
  names : List String
deriving Repr

namespace NameSet

/-- Whether the name is taken. -/
def contains (set : NameSet) (name : String) : Bool := set.names.contains name

/-- Takes a name. -/
def insert (set : NameSet) (name : String) : NameSet :=
  if set.contains name then set else ⟨name :: set.names⟩

/-- The set of the given names. -/
def ofList (names : List String) : NameSet :=
  names.foldl insert ⟨[]⟩

/-- The candidates for a base: itself, then with the numbers from two on. -/
def candidate (base : String) : Nat → String
  | 0 => base
  | k + 1 => base ++ toString (k + 2)

/-- The first candidate for a base that is free. -/
def fresh (set : NameSet) (base : String) : String :=
  match (List.range (set.names.length + 1)).find? fun k ↦ !set.contains (candidate base k) with
  | some k => candidate base k
  | none => base

/-- Allocates a name for each base in turn. -/
def allocate (set : NameSet) : List String → List String × NameSet
  | [] => ([], set)
  | base :: bases =>
    let name := set.fresh base
    let (names, set) := (set.insert name).allocate bases
    (name :: names, set)

end NameSet

end AbiBindings.TypeScript
