import AbiBindings.Manifest.Shape

/-!
# Manifests read from JSON

The shape of each part of a manifest, and the readings built from them. Type references contain each
other, directly and as the fields of a record, so these two are read by recursion on the JSON tree;
every other part is put together from them.

A type reference or a type definition is first read as the loose collection of its keys, and then
made into what its `$ref` or its `kind` says. That second step has no place of its own in the text.
-/

namespace AbiBindings

open Json

/-! ### Type references -/

/-- The keys of a type reference as they were given. -/
structure RefParts where
  reference : Option (Option String) := none
  kind : Option (Option String) := none
  size : Option (Option UInt32) := none
  items : Option (Option TypeRef) := none
  key : Option (Option TypeRef) := none
  value : Option (Option TypeRef) := none
  fields : Option (Option (List Field)) := none

/-- The length of a byte sequence with an optional size. -/
def ByteLength.ofSize? : Option UInt32 → Except Problem ByteLength
  | none => .ok .any
  | some size => if h : size ≠ 0 then .ok (.fixed ⟨size, h⟩) else .error .zeroSize

namespace RefParts

/-- The keys of a type reference. -/
def shape (source : Source) : Shape RefParts RefParts where
  wanted := .typeRef
  slots :=
    [.ofOption "$ref" reference (fun v parts ↦ { parts with reference := some v })
        (readText source ·.node),
      .ofOption "kind" kind (fun v parts ↦ { parts with kind := some v }) (readText source ·.node),
      .ofOption "size" size (fun v parts ↦ { parts with size := some v }) (readCount source ·.node),
      .ofOption "items" items (fun v parts ↦ { parts with items := some v }) (·.typeRef ()),
      .ofOption "key" key (fun v parts ↦ { parts with key := some v }) (·.typeRef ()),
      .ofOption "value" value (fun v parts ↦ { parts with value := some v }) (·.typeRef ()),
      .ofOption "fields" fields (fun v parts ↦ { parts with fields := some v }) (·.fields ())]
  empty := {}
  build _ parts := .ok parts

/-- The type reference of a kind. -/
def ofKind (parts : RefParts) (kind : String) : Except Problem TypeRef :=
  match ScalarKind.ofTag? kind with
  | some scalar => .ok (.scalar scalar)
  | none =>
    if kind = "bytes" then (ByteLength.ofSize? parts.size.join).map .bytes
    else if kind = "list" then
      match parts.items.join with
      | some items => .ok (.list items)
      | none => .error .listWithoutItems
    else if kind = "map" then
      match parts.key.join, parts.value.join with
      | some key, some value => .ok (.map key value)
      | _, _ => .error .mapWithoutKeyOrValue
    else if kind = "record" then
      match parts.fields.join with
      | some fields => .ok (.record fields)
      | none => .error .recordWithoutFields
    else .error (.unknownKind kind)

/-- The type reference that the keys make up; a `$ref` decides over everything else. -/
def toTypeRef (parts : RefParts) : Except Problem TypeRef :=
  match parts.reference.join, parts.kind.join with
  | some name, _ => .ok (.reference name)
  | none, some kind => parts.ofKind kind
  | none, none => .error .noKind

end RefParts

/-- An error without a place. -/
def unplaced {α : Type} (result : Except Problem α) : Except ReadError α :=
  result.mapError (⟨·, none⟩)

/-- The keys of a field or a parameter as they were given. -/
structure MemberParts where
  name : Option String := none
  type : Option TypeRef := none
  nullable : Option Bool := none

/-- The keys of a field or a parameter. -/
def MemberParts.shape (source : Source) (wanted : Wanted) : Shape MemberParts (Member TypeRef) where
  wanted := wanted
  slots :=
    [.of "name" name (fun v parts ↦ { parts with name := some v }) (readText source ·.node),
      .of "type" type (fun v parts ↦ { parts with type := some v }) (·.typeRef ()),
      .of "nullable" nullable (fun v parts ↦ { parts with nullable := some v })
        (readFlag source ·.node)]
  empty := {}
  build absent parts := do
    let name ← require (absent 0 "name") parts.name
    let type ← require (absent 1 "type") parts.type
    return ⟨name, type, parts.nullable.getD false⟩

mutual

/-- Reads a type reference. -/
def readTypeRef (source : Source) : Located → Except ReadError TypeRef
  | .object start tooDeep entries ending => do
    let parts ←
      (RefParts.shape source).ofObject source start tooDeep (readChildEntries source entries) ending
    unplaced parts.toTypeRef
  | .list start tooDeep nodes ending => do
    let parts ←
      (RefParts.shape source).ofList source start tooDeep (readChildren source nodes) ending
    unplaced parts.toTypeRef
  | node => .error (mismatch source .typeRef node)

/-- Reads a field of a record. -/
def readField (source : Source) : Located → Except ReadError Field
  | .object start tooDeep entries ending =>
    (MemberParts.shape source .field).ofObject source start tooDeep
      (readChildEntries source entries) ending
  | .list start tooDeep nodes ending =>
    (MemberParts.shape source .field).ofList source start tooDeep (readChildren source nodes) ending
  | node => .error (mismatch source .field node)

/-- Reads the fields of a record. -/
def readFields (source : Source) : Located → Except ReadError (List Field)
  | .list start tooDeep nodes ending => do
    checkDepth start tooDeep
    let fields ← readFieldItems source nodes
    let _ ← readEnding ending
    return fields
  | node => .error (mismatch source .list node)

/-- Reads the fields of a record in turn. -/
def readFieldItems (source : Source) : List Located → Except ReadError (List Field)
  | [] => .ok []
  | node :: nodes => do
    let field ← (readField source node).mapError (·.placed source.closeList node.stop)
    return field :: (← readFieldItems source nodes)

/-- The entries of an object with their readings. -/
def readChildEntries (source : Source) : List (Key × Located) → List (Key × Child)
  | [] => []
  | (key, node) :: entries =>
    (key, ⟨node, fun _ ↦ readTypeRef source node, fun _ ↦ readFields source node⟩) ::
      readChildEntries source entries

/-- The items of a list with their readings. -/
def readChildren (source : Source) : List Located → List Child
  | [] => []
  | node :: nodes =>
    ⟨node, fun _ ↦ readTypeRef source node, fun _ ↦ readFields source node⟩ ::
      readChildren source nodes

end

/-- Reads a part of a manifest by its shape. -/
def Shape.read {σ α : Type} (source : Source) (shape : Shape σ α) : Located → Except ReadError α
  | .object start tooDeep entries ending =>
    shape.ofObject source start tooDeep (readChildEntries source entries) ending
  | .list start tooDeep nodes ending =>
    shape.ofList source start tooDeep (readChildren source nodes) ending
  | node => .error (mismatch source shape.wanted node)

/-! ### Type definitions -/

/-- The keys of a case as they were given. -/
structure CaseParts where
  name : Option String := none
  code : Option (Option String) := none
  payload : Option (Option TypeRef) := none

/-- The keys of a case. -/
def CaseParts.shape (source : Source) : Shape CaseParts Case where
  wanted := .case
  slots :=
    [.of "name" name (fun v parts ↦ { parts with name := some v }) (readText source ·.node),
      .ofOption "code" code (fun v parts ↦ { parts with code := some v }) (readText source ·.node),
      .ofOption "payload" payload (fun v parts ↦ { parts with payload := some v }) (·.typeRef ())]
  empty := {}
  build absent parts := do
    let name ← require (absent 0 "name") parts.name
    return ⟨name, parts.code.join, parts.payload.join⟩

/-- Reads a case of a variant. -/
def readCase (source : Source) : Located → Except ReadError Case :=
  (CaseParts.shape source).read source

/-- The keys of a type definition as they were given. -/
structure DefParts where
  kind : Option String := none
  size : Option (Option UInt32) := none
  fields : Option (Option (List Field)) := none
  variants : Option (Option (List Case)) := none
  target : Option (Option TypeRef) := none

namespace DefParts

/-- The keys of a type definition; the kind has to be there. -/
def shape (source : Source) : Shape DefParts (String × DefParts) where
  wanted := .typeDef
  slots :=
    [.of "kind" kind (fun v parts ↦ { parts with kind := some v }) (readText source ·.node),
      .ofOption "size" size (fun v parts ↦ { parts with size := some v }) (readCount source ·.node),
      .ofOption "fields" fields (fun v parts ↦ { parts with fields := some v }) (·.fields ()),
      .ofOption "variants" variants (fun v parts ↦ { parts with variants := some v })
        (readList source (readCase source) ·.node),
      .ofOption "target" target (fun v parts ↦ { parts with target := some v }) (·.typeRef ())]
  empty := {}
  build absent parts := do
    let kind ← require (absent 0 "kind") parts.kind
    return (kind, parts)

/-- The type definition of a kind. -/
def ofKind (parts : DefParts) (kind : String) : Except Problem TypeDef :=
  if kind = "record" then
    match parts.fields.join with
    | some fields => .ok (.record fields)
    | none => .error .definitionWithoutFields
  else if kind = "variant" then
    match parts.variants.join with
    | some cases => .ok (.variant cases)
    | none => .error .definitionWithoutCases
  else if kind = "bytes" then (ByteLength.ofSize? parts.size.join).map .bytes
  else if kind = "alias" then
    match parts.target.join with
    | some target => .ok (.aliasOf target)
    | none => .error .definitionWithoutTarget
  else .error (.unknownDefinitionKind kind)

end DefParts

/-- Reads a type definition. -/
def readTypeDef (source : Source) (node : Located) : Except ReadError TypeDef := do
  let (kind, parts) ← (DefParts.shape source).read source node
  unplaced (parts.ofKind kind)

/-! ### Methods and events -/

/-- Reads a parameter of a method. -/
def readParameter (source : Source) : Located → Except ReadError Parameter :=
  (MemberParts.shape source .parameter).read source

/-- The keys of a method error as they were given. -/
structure MethodErrorParts where
  code : Option String := none
  payload : Option (Option TypeRef) := none

/-- The keys of a method error. -/
def MethodErrorParts.shape (source : Source) : Shape MethodErrorParts MethodError where
  wanted := .methodError
  slots :=
    [.of "code" code (fun v parts ↦ { parts with code := some v }) (readText source ·.node),
      .ofOption "payload" payload (fun v parts ↦ { parts with payload := some v }) (·.typeRef ())]
  empty := {}
  build absent parts := do
    let code ← require (absent 0 "code") parts.code
    return ⟨code, parts.payload.join⟩

/-- Reads a way for a method to fail. -/
def readMethodError (source : Source) : Located → Except ReadError MethodError :=
  (MethodErrorParts.shape source).read source

/-- The keys of a method as they were given. -/
structure MethodParts where
  name : Option String := none
  params : Option (List Parameter) := none
  returns : Option (Option TypeRef) := none
  returnsNullable : Option Bool := none
  errors : Option (List MethodError) := none

/-- The keys of a method. -/
def MethodParts.shape (source : Source) : Shape MethodParts Method where
  wanted := .method
  slots :=
    [.of "name" name (fun v parts ↦ { parts with name := some v }) (readText source ·.node),
      .of "params" params (fun v parts ↦ { parts with params := some v })
        (readList source (readParameter source) ·.node),
      .ofOption "returns" returns (fun v parts ↦ { parts with returns := some v }) (·.typeRef ()),
      .of "returns_nullable" returnsNullable
      (fun v parts ↦ { parts with returnsNullable := some v })
        (readFlag source ·.node),
      .of "errors" errors (fun v parts ↦ { parts with errors := some v })
        (readList source (readMethodError source) ·.node)]
  empty := {}
  build absent parts := do
    let name ← require (absent 0 "name") parts.name
    let params ← require (absent 1 "params") parts.params
    return ⟨name, params, parts.returns.join, parts.returnsNullable.getD false,
      parts.errors.getD []⟩

/-- Reads a method. -/
def readMethod (source : Source) : Located → Except ReadError Method :=
  (MethodParts.shape source).read source

/-- The keys of an event as they were given. -/
structure EventParts where
  name : Option String := none
  payload : Option (Option TypeRef) := none

/-- The keys of an event. -/
def EventParts.shape (source : Source) : Shape EventParts Event where
  wanted := .event
  slots :=
    [.of "name" name (fun v parts ↦ { parts with name := some v }) (readText source ·.node),
      .ofOption "payload" payload (fun v parts ↦ { parts with payload := some v }) (·.typeRef ())]
  empty := {}
  build absent parts := do
    let name ← require (absent 0 "name") parts.name
    return ⟨name, parts.payload.join⟩

/-- Reads an event. -/
def readEvent (source : Source) : Located → Except ReadError Event :=
  (EventParts.shape source).read source

/-! ### Documents -/

/-- Reads the entries of the type table, repeated names included. -/
def readTypeEntries (source : Source) :
    List (Key × Located) → Except ReadError (List (String × TypeDef))
  | [] => .ok []
  | (key, node) :: entries => do
    let name ← key.name.mapError .ofFault
    let typeDef ← (readTypeDef source node).mapError (·.placed source.closeObject node.stop)
    return (name, typeDef) :: (← readTypeEntries source entries)

/-- Reads the type table. -/
def readTypeTable (source : Source) : Located → Except ReadError (List (String × TypeDef))
  | .object start tooDeep entries ending => do
    checkDepth start tooDeep
    let types ← readTypeEntries source entries
    let _ ← readEnding ending
    return types
  | node => .error (mismatch source .typeTable node)

/-- The keys of a document as they were given. -/
structure DocumentParts where
  version : Option String := none
  types : Option (List (String × TypeDef)) := none
  methods : Option (List Method) := none
  events : Option (List Event) := none

/-- The keys of a document. -/
def DocumentParts.shape (source : Source) : Shape DocumentParts Document where
  wanted := .document
  slots :=
    [.of "schema_version" version (fun v parts ↦ { parts with version := some v })
        (readText source ·.node),
      .of "types" types (fun v parts ↦ { parts with types := some v })
      (readTypeTable source ·.node),
      .of "methods" methods (fun v parts ↦ { parts with methods := some v })
        (readList source (readMethod source) ·.node),
      .of "events" events (fun v parts ↦ { parts with events := some v })
        (readList source (readEvent source) ·.node)]
  empty := {}
  build absent parts := do
    let version ← require (absent 0 "schema_version") parts.version
    let types ← require (absent 1 "types") parts.types
    let methods ← require (absent 2 "methods") parts.methods
    let events ← require (absent 3 "events") parts.events
    return ⟨version, types, methods, events⟩

/-- Reads a document. -/
def readDocument (source : Source) : Located → Except ReadError Document :=
  (DocumentParts.shape source).read source

/-! ### Whole values and whole texts -/

/-- Reads a part of a manifest from a plain value. -/
def readFromJson {α : Type} (read : Source → Located → Except ReadError α) (value : Json) :
    Except ReadError α :=
  read .value (.ofJson value)

/-- Reads a part of a manifest from a text, which holds nothing else. -/
def readFromText {α : Type} (read : Source → Located → Except ReadError α) (text : List Char) :
    Except ReadError α := do
  let root := Located.ofText text
  let part ← read (.text text) root.value
  match root.trailing with
  | none => return part
  | some fault => .error (.ofFault fault)

end AbiBindings
