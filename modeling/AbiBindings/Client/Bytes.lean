import AbiBindings.Manifest.Basic

/-!
# Where byte sequences are

Whether a value of a type can hold a byte sequence, at any depth. The names of the types that can
are collected in rounds: a round adds the types that hold a byte sequence themselves or name a type
found already. As many rounds as there are types find them all. The keys of a map are strings and
are not looked at.
-/

namespace AbiBindings.Client

mutual

/-- Given which names hold byte sequences, whether a type does. -/
def holdsBytes (named : String → Bool) : TypeRef → Bool
  | .reference name => named name
  | .scalar _ => false
  | .bytes _ => true
  | .list items => holdsBytes named items
  | .map _ value => holdsBytes named value
  | .record fields => fieldsHoldBytes named fields

/-- Given which names hold byte sequences, whether a field does. -/
def fieldsHoldBytes (named : String → Bool) : List (Member TypeRef) → Bool
  | [] => false
  | ⟨_, type, _⟩ :: fields => holdsBytes named type || fieldsHoldBytes named fields

end

/-- Given which names hold byte sequences, whether a defined type does. -/
def definitionHoldsBytes (named : String → Bool) : TypeDef → Bool
  | .record fields => fieldsHoldBytes named fields
  | .variant cases => cases.any fun case ↦ case.payload.any (holdsBytes named)
  | .bytes _ => true
  | .aliasOf target => holdsBytes named target

/-- The names of the types that hold byte sequences, as found after a number of rounds. -/
def bytesNamesAfter (types : List (String × TypeDef)) : (rounds : Nat) → List String
  | 0 => []
  | rounds + 1 =>
    let found := bytesNamesAfter types rounds
    (types.filter fun (_, typeDef) ↦ definitionHoldsBytes found.contains typeDef).map Prod.fst

/-- Whether a value of a type can hold a byte sequence. -/
def isBinary (types : List (String × TypeDef)) (type : TypeRef) : Bool :=
  holdsBytes (bytesNamesAfter types types.length).contains type

end AbiBindings.Client
