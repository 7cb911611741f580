import AbiBindings.Manifest.Basic
import AbiBindings.TypeScript.Literal

/-!
# Shapes of results

A shape tells the generated code where byte sequences sit inside a value: the value is one, or they
sit in the items of a list, the values of a map, or some members of a record or a variant. A type
without byte sequences has no shape.

A named type is not entered again while it is being expanded, so the shape of a type that contains
itself goes down to the first repetition. Each name entered is an entry of the type table, which
bounds the depth.
-/

namespace AbiBindings.Client

open TypeScript

/-- Where byte sequences sit inside a value. -/
inductive ResultShape where
  | bytes
  | list (items : ResultShape)
  | map (values : ResultShape)
  | record (members : List (String × ResultShape))
  | variant (members : List (String × ResultShape))
deriving Repr

namespace ResultShape

/-- A shape with members, if there are any. -/
def ofMembers (make : List (String × ResultShape) → ResultShape) :
    List (String × ResultShape) → Option ResultShape
  | [] => none
  | members => some (make members)

mutual

/-- The shape of a type, given the shapes of names. -/
def ofTypeWith (named : String → Option ResultShape) : TypeRef → Option ResultShape
  | .reference name => named name
  | .scalar _ => none
  | .bytes _ => some bytes
  | .list items => (ofTypeWith named items).map list
  | .map _ value => (ofTypeWith named value).map map
  | .record fields => ofMembers record (fieldsWith named fields)

/-- The fields that have a shape, given the shapes of names. -/
def fieldsWith (named : String → Option ResultShape) :
    List (Member TypeRef) → List (String × ResultShape)
  | [] => []
  | ⟨name, type, _⟩ :: fields =>
    match ofTypeWith named type with
    | some shape => (name, shape) :: fieldsWith named fields
    | none => fieldsWith named fields

end

/-- The case with its shape, if its payload has one. -/
def caseWith (named : String → Option ResultShape) (case : Case) : Option (String × ResultShape) :=
  (case.payload.bind (ofTypeWith named)).map fun shape ↦ (case.name, shape)

/-- The shape of a defined type, given the shapes of names. -/
def ofDefinitionWith (named : String → Option ResultShape) : TypeDef → Option ResultShape
  | .record fields => ofMembers record (fieldsWith named fields)
  | .variant cases => ofMembers variant (cases.filterMap (caseWith named))
  | .bytes _ => some bytes
  | .aliasOf target => ofTypeWith named target

/-- The shape of a named type, while the types `expanding` are being expanded. -/
def ofName (types : List (String × TypeDef)) :
    (fuel : Nat) → (expanding : List String) → (name : String) → Option ResultShape
  | 0, _, _ => none
  | fuel + 1, expanding, name =>
    if name ∈ expanding then none
    else
      match Table.find? name types with
      | some typeDef => ofDefinitionWith (ofName types fuel (name :: expanding)) typeDef
      | none => none

/-- The shape of a type. -/
def ofType (types : List (String × TypeDef)) (type : TypeRef) : Option ResultShape :=
  ofTypeWith (ofName types types.length []) type

/-! ### Text -/

mutual

/-- The text of a shape. -/
def text : ResultShape → String
  | bytes => "'bytes'"
  | list items => "\x7b list: " ++ items.text ++ " \x7d"
  | map values => "\x7b map: " ++ values.text ++ " \x7d"
  | record members => "\x7b record: \x7b " ++ ", ".intercalate (memberTexts members) ++ " \x7d \x7d"
  | variant members =>
    "\x7b variant: \x7b " ++ ", ".intercalate (memberTexts members) ++ " \x7d \x7d"

/-- The texts of members. -/
def memberTexts : List (String × ResultShape) → List String
  | [] => []
  | (name, shape) :: members => (propertyKey name ++ ": " ++ shape.text) :: memberTexts members

end

end ResultShape

end AbiBindings.Client
