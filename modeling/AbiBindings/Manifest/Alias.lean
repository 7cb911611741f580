import AbiBindings.Manifest.Basic

/-!
# Following aliases

A reference to an alias stands for the alias's target, which may be another reference.
`Alias.follow` takes such steps until none is left. Every step leads to an entry of the type table,
so a chain that takes more steps than the table has entries has come back to where it was, and never
ends.
-/

namespace AbiBindings.Alias

variable (types : List (String × TypeDef))

/-- One step from a reference to an alias to the alias's target. -/
def step? : TypeRef → Option TypeRef
  | .reference name =>
    match Table.find? name types with
    | some (.aliasOf target) => some target
    | _ => none
  | _ => none

/-- Takes up to `fuel` steps. A chain that goes on after that, or that leads to a name without a
definition, has no end. -/
def followUpTo : (fuel : Nat) → TypeRef → Option TypeRef
  | 0, type => if (step? types type).isNone ∧ isDefined type then some type else none
  | fuel + 1, type =>
    match step? types type with
    | some target => followUpTo fuel target
    | none => if isDefined type then some type else none
where
  /-- The type is inline, or its name has a definition. -/
  isDefined : TypeRef → Bool
    | .reference name => Table.contains name types
    | _ => true

/-- The type that a chain of aliases ends in: inline, or the name of a type that is no alias. -/
def follow (type : TypeRef) : Option TypeRef :=
  followUpTo types types.length type

/-- The type is the string scalar, or a chain of aliases that ends in it. -/
def isString (type : TypeRef) : Bool :=
  match follow types type with
  | some (.scalar .string) => true
  | _ => false

/-- The type is the unit scalar, or a chain of aliases that ends in it. -/
def isUnit (type : TypeRef) : Bool :=
  match follow types type with
  | some (.scalar .unit) => true
  | _ => false

/-- The variant that the type is, or that a chain of aliases ends in. -/
def variant? (type : TypeRef) : Option String :=
  match follow types type with
  | some (.reference name) =>
    match Table.find? name types with
    | some (.variant _) => some name
    | _ => none
  | _ => none

/-- The name that an alias for another name stands for. -/
def next? (name : String) : Option String :=
  (step? types (.reference name)).bind TypeRef.referenceName?

/-- Whether a chain of at most `fuel` aliases leads from `current` to `name`. -/
def leadsTo (name : String) : (fuel : Nat) → (current : String) → Bool
  | 0, _ => false
  | fuel + 1, current =>
    match next? types current with
    | some next => next = name || leadsTo name fuel next
    | none => false

/-- The alias stands for itself, by way of other aliases only. -/
def isCycle (name : String) : Bool :=
  leadsTo types name types.length name

end AbiBindings.Alias
