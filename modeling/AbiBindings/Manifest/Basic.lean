import AbiBindings.Table

/-!
# ABI manifests

A manifest describes a component by the types it exchanges, the methods it offers and the events it
emits. A type is used through a *type reference*, which is inline or names an entry of the type
table, and named types are given by *type definitions*.

A `Document` is a manifest as it was written: its type table may repeat a name and its references
may lead nowhere. A `Manifest` is what is left when a document has passed every check.
-/

namespace AbiBindings

/-! ### Types -/

/-- The kinds of scalars. -/
inductive ScalarKind where
  | bool
  | i32
  | i64
  | u32
  | u64
  | f32
  | f64
  | string
  | unit
deriving Repr, DecidableEq

namespace ScalarKind

/-- Every kind. -/
def all : List ScalarKind := [bool, i32, i64, u32, u64, f32, f64, string, unit]

/-- The word for a kind in manifests. -/
def tag : ScalarKind → String
  | bool => "bool"
  | i32 => "i32"
  | i64 => "i64"
  | u32 => "u32"
  | u64 => "u64"
  | f32 => "f32"
  | f64 => "f64"
  | string => "string"
  | unit => "unit"

/-- The kind with the given word. -/
def ofTag? (word : String) : Option ScalarKind :=
  all.find? fun kind ↦ kind.tag = word

end ScalarKind

/-- A number of bytes, at least one. -/
structure ByteCount where
  size : UInt32
  size_ne_zero : size ≠ 0
deriving Repr, DecidableEq

/-- How long a byte sequence may be. -/
inductive ByteLength where
  | any
  | fixed (count : ByteCount)
deriving Repr, DecidableEq

/-- A named position of some type that may allow for null: the field of a record or the parameter of
a method. -/
structure Member (τ : Type) where
  name : String
  type : τ
  nullable : Bool
deriving Repr

/-- The use of a type. -/
inductive TypeRef where
  /-- The type with this name in the type table. -/
  | reference (name : String)
  | scalar (kind : ScalarKind)
  | bytes (length : ByteLength)
  | list (items : TypeRef)
  | map (key value : TypeRef)
  | record (fields : List (Member TypeRef))
deriving Repr

/-- A field of a record. -/
abbrev Field := Member TypeRef

/-- A parameter of a method. -/
abbrev Parameter := Member TypeRef

/-- The name of the type that a reference leads to. -/
def TypeRef.referenceName? : TypeRef → Option String
  | reference name => some name
  | _ => none

/-- A case of a variant. -/
structure Case where
  name : String
  /-- A code given to the case by whoever wrote the manifest. -/
  code : Option String
  payload : Option TypeRef
deriving Repr

/-- The definition of a named type. -/
inductive TypeDef where
  | record (fields : List Field)
  | variant (cases : List Case)
  | bytes (length : ByteLength)
  | aliasOf (target : TypeRef)
deriving Repr

/-- The word for a kind of definition in manifests. -/
def TypeDef.kind : TypeDef → String
  | record _ => "record"
  | variant _ => "variant"
  | bytes _ => "bytes"
  | aliasOf _ => "alias"

/-! ### Methods and events -/

/-- A way for a method to fail. -/
structure MethodError where
  code : String
  payload : Option TypeRef
deriving Repr

/-- A method that can be called. -/
structure Method where
  name : String
  params : List Parameter
  returns : Option TypeRef
  returnsNullable : Bool
  errors : List MethodError
deriving Repr

/-- An event that is emitted. -/
structure Event where
  name : String
  payload : Option TypeRef
deriving Repr

/-! ### Documents and manifests -/

/-- A manifest as it was written. -/
structure Document where
  version : String
  types : List (String × TypeDef)
  methods : List Method
  events : List Event
deriving Repr

/-- A manifest that passed every check. -/
structure Manifest where
  version : String
  types : List (String × TypeDef)
  methods : List Method
  events : List Event
deriving Repr

namespace Manifest

/-- The version of the format that is understood. -/
def supportedVersion : String := "wasm-abi/1"

/-- The manifest of a document; its type table has every name once. -/
def ofDocument (document : Document) : Manifest :=
  { version := document.version
    types := Table.ofEntries document.types
    methods := document.methods
    events := document.events }

/-- The definition of a named type. -/
def typeDef? (manifest : Manifest) (name : String) : Option TypeDef :=
  Table.find? name manifest.types

/-- The method with the given name. -/
def method? (manifest : Manifest) (name : String) : Option Method :=
  manifest.methods.find? fun method ↦ method.name = name

/-- The event with the given name. -/
def event? (manifest : Manifest) (name : String) : Option Event :=
  manifest.events.find? fun event ↦ event.name = name

end Manifest

end AbiBindings
