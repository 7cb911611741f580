import AbiBindings.Json.Basic

/-!
# Replication fields

Producers of manifests add fields for replicating state. They say nothing about the interface, so
they are removed, at every depth, before a manifest is looked at.
-/

namespace AbiBindings.Replication

/-- The names of the fields. -/
def fields : List String := ["crdt_type", "inner_type", "state_root"]

/-- Whether a key names one of the fields. -/
def isField (key : String) : Bool := fields.contains key

mutual

/-- The value without replication fields. -/
def strip : Json → Json
  | .array items => .array (stripItems items)
  | .object entries => .object (stripEntries entries)
  | value => value

/-- The items of a list without replication fields. -/
def stripItems : List Json → List Json
  | [] => []
  | item :: items => strip item :: stripItems items

/-- The entries of an object without replication fields. -/
def stripEntries : List (String × Json) → List (String × Json)
  | [] => []
  | (key, value) :: entries =>
    if isField key then stripEntries entries else (key, strip value) :: stripEntries entries

end

end AbiBindings.Replication
