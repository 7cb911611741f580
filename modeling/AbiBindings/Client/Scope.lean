import AbiBindings.Error
import AbiBindings.Manifest.Alias
import AbiBindings.TypeScript.NameSet
import AbiBindings.TypeScript.TypeExpr

/-!
# The types of a manifest in generated text

A scope gives each type of a manifest a name of its own in the generated text. A variant has two:
its own name is taken by the object that makes its values, so its type has another.

All names come from one allocation: first the types in the order of the table, then the variants. In
a scope a type reference becomes a type expression, unless it leads to a type that the manifest does
not have.
-/

namespace AbiBindings.Client

open TypeScript

/-- The class of byte sequences. -/
def bytesName : String := "AbiBytes"

/-- The union of all events. -/
def eventsName : String := "AbiEvent"

/-- The names given to the types of a manifest. -/
structure Scope where
  manifest : Manifest
  /-- The name of each type. -/
  typeNames : List (String × String)
  /-- The name of the type of each variant. -/
  payloadNames : List (String × String)
  /-- All names that are taken. -/
  used : NameSet

namespace Scope

/-- Whether a definition is that of a variant. -/
def isVariant : TypeDef → Bool
  | .variant _ => true
  | _ => false

/-- The scope of a manifest in which some names are taken already. -/
def of (manifest : Manifest) (reserved : List String) : Scope :=
  let names := Table.names manifest.types
  let (idents, used) :=
    (NameSet.ofList (bytesName :: eventsName :: reserved)).allocate (names.map identifier)
  let variants := (manifest.types.zip idents).filter fun ((_, typeDef), _) ↦ isVariant typeDef
  let (payloads, used) := used.allocate (variants.map fun (_, ident) ↦ ident ++ "Payload")
  { manifest
    typeNames := names.zip idents
    payloadNames := (variants.map fun ((name, _), _) ↦ name).zip payloads
    used }

variable (scope : Scope)

/-- The name of a type. -/
def typeName (name : String) : Except Error String :=
  match Table.find? name scope.typeNames with
  | some ident => .ok ident
  | none => .error (.misused (.undeclared name))

/-- The name of the type of a variant. -/
def payloadName (name : String) : Except Error String :=
  match Table.find? name scope.payloadNames with
  | some ident => .ok ident
  | none => .error (.misused (.notAVariant name))

/-! ### Type expressions -/

/-- The type of a scalar. -/
def scalarName : ScalarKind → String
  | .bool => "boolean"
  | .i32 | .i64 | .u32 | .u64 | .f32 | .f64 => "number"
  | .string => "string"
  | .unit => "void"

/-- The type that a name stands for. -/
def referenceExpr (name : String) : Except Error TypeExpr :=
  match scope.manifest.typeDef? name with
  | none => .error (.misused (.undeclared name))
  | some (.bytes _) => .ok (.name bytesName)
  | some (.variant _) => (scope.payloadName name).map .name
  | some (.record _) | some (.aliasOf _) => (scope.typeName name).map .name

mutual

/-- The type expression of a type reference. -/
def expr : TypeRef → Except Error TypeExpr
  | .reference name => scope.referenceExpr name
  | .scalar kind => .ok (.name (scalarName kind))
  | .bytes _ => .ok (.name bytesName)
  | .list items => return .array (← expr items)
  | .map key value => return .dictionary (← expr key) (← expr value)
  | .record fields => return .object (← memberExprs fields)

/-- Fields or parameters with their types as type expressions. -/
def memberExprs : List (Member TypeRef) → Except Error (List (Member TypeExpr))
  | [] => .ok []
  | ⟨name, type, nullable⟩ :: members =>
    return ⟨name, ← expr type, nullable⟩ :: (← memberExprs members)

end

/-! ### Aliases -/

/-- The type is the unit scalar, or an alias of it. -/
def isUnit (type : TypeRef) : Bool := Alias.isUnit scope.manifest.types type

/-- The variant that the type is, or is an alias of. -/
def variant? (type : TypeRef) : Option String := Alias.variant? scope.manifest.types type

/-- The alias stands for itself. -/
def isAliasCycle (name : String) : Bool := Alias.isCycle scope.manifest.types name

/-- A payload that carries something: a unit counts as none. -/
def payload (type : Option TypeRef) : Option TypeRef :=
  type.filter fun t ↦ !scope.isUnit t

/-- The type expression of a payload, if it carries something. -/
def payloadExpr (type : Option TypeRef) : Except Error (Option TypeExpr) :=
  match scope.payload type with
  | none => .ok none
  | some t => return some (← scope.expr t)

end Scope

end AbiBindings.Client
