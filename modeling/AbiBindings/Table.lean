/-!
# Tables in order

A table is a list of named entries. Looking up a name gives its first entry. `insert` keeps the
place of a name that is already there and changes its value, so a table built by insertion lists its
names in the order of their first appearance, each once, with the value given last.
-/

namespace AbiBindings.Table

variable {α : Type}

/-- The value under a name. -/
def find? (name : String) : List (String × α) → Option α
  | [] => none
  | (n, a) :: rest => if n = name then some a else find? name rest

/-- Whether the table has the name. -/
def contains (name : String) (entries : List (String × α)) : Bool :=
  (find? name entries).isSome

/-- Sets the value under a name, at its place if it has one and at the end otherwise. -/
def insert (name : String) (value : α) : List (String × α) → List (String × α)
  | [] => [(name, value)]
  | (n, a) :: rest => if n = name then (n, value) :: rest else (n, a) :: insert name value rest

/-- The table that the entries build one after the other. -/
def ofEntries (entries : List (String × α)) : List (String × α) :=
  entries.foldl (fun table (name, value) ↦ insert name value table) []

/-- The names, in order. -/
def names (entries : List (String × α)) : List String :=
  entries.map Prod.fst

end AbiBindings.Table
