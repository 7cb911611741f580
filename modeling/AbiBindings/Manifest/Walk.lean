import AbiBindings.Manifest.Basic

/-!
# Every type reference of a document

The occurrences of type references in a document, each with a label for its place. Methods come
first, then events, then the type table; an occurrence is followed by those inside it.
-/

namespace AbiBindings

/-- A type reference at a place of a document. -/
structure Occurrence where
  type : TypeRef
  location : String
deriving Repr

namespace TypeRef

mutual

/-- The type at a place, and the types inside it. -/
def occurrences (location : String) : TypeRef → List Occurrence
  | reference name => [⟨reference name, location⟩]
  | scalar kind => [⟨scalar kind, location⟩]
  | bytes length => [⟨bytes length, location⟩]
  | list items => ⟨list items, location⟩ :: items.occurrences (location ++ ".items")
  | map key value =>
    ⟨map key value, location⟩ ::
      (key.occurrences (location ++ ".key") ++ value.occurrences (location ++ ".value"))
  | record fields => ⟨record fields, location⟩ :: fieldOccurrences location fields

/-- The types of the fields at a place, and the types inside them. -/
def fieldOccurrences (location : String) : List (Member TypeRef) → List Occurrence
  | [] => []
  | ⟨name, type, _⟩ :: fields =>
    type.occurrences (location ++ ".field." ++ name) ++ fieldOccurrences location fields

end

end TypeRef

/-- The occurrences in a payload, if there is one. -/
def payloadOccurrences (location : String) : Option TypeRef → List Occurrence
  | none => []
  | some type => type.occurrences location

/-- The occurrences in a method: parameters, result, errors. -/
def Method.occurrences (method : Method) : List Occurrence :=
  let place := "method." ++ method.name
  method.params.flatMap (fun param ↦ param.type.occurrences (place ++ ".param." ++ param.name)) ++
    payloadOccurrences (place ++ ".returns") method.returns ++
    method.errors.flatMap fun error ↦
      payloadOccurrences (place ++ ".error." ++ error.code) error.payload

/-- The occurrences in an event. -/
def Event.occurrences (event : Event) : List Occurrence :=
  payloadOccurrences ("event." ++ event.name) event.payload

/-- The occurrences in the definition of a type. -/
def TypeDef.occurrences (name : String) : TypeDef → List Occurrence
  | record fields => TypeRef.fieldOccurrences ("type." ++ name) fields
  | variant cases =>
    cases.flatMap fun case ↦
      payloadOccurrences ("type." ++ name ++ ".variant." ++ case.name) case.payload
  | bytes _ => []
  | aliasOf target => target.occurrences ("type." ++ name ++ ".target")

/-- The occurrences in a document. -/
def Document.occurrences (document : Document) : List Occurrence :=
  document.methods.flatMap Method.occurrences ++ document.events.flatMap Event.occurrences ++
    document.types.flatMap fun (name, typeDef) ↦ typeDef.occurrences name

end AbiBindings
