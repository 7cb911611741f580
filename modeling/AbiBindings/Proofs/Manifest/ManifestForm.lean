import AbiBindings.Proofs.Manifest.Occurrences
import AbiBindings.Proofs.Manifest.WrittenForm

/-!
# The manifest form of a document

`Form` says which JSON values are the manifest form of a type reference, a type definition and so on
up to a whole document: objects with the keys of the format and no others, in whatever order
(`Json.HasFields`). What has a default may be left out where it has it, at each place anew. Beside
`WrittenAs`, which only looks at what a value has under some keys, a form leaves nothing of the
value open either.

`toJson` prints the manifest form in the order of the format, with all that may be left out (`full`)
or without it, and what it prints is a form (`Document.form_toJson`). `givenNames` lists the names
that a document gives or uses.
-/

namespace AbiBindings

open Json

/-! ### Objects with given keys -/

/-- The object has these values under these keys, each key at most once, and no other keys. -/
structure Json.HasFields (entries : List (String × Json)) (fields : List (String × Option Json)) :
    Prop where
  nodup : (Table.names entries).Nodup
  find? : ∀ key, Table.find? key entries = (Table.find? key fields).join

/-- The entries for the keys that have a value. -/
def Json.present (fields : List (String × Option Json)) : List (String × Json) :=
  fields.filterMap fun field ↦ field.2.map (field.1, ·)

theorem Json.names_present_sublist (fields : List (String × Option Json)) :
    (Table.names (present fields)).Sublist (Table.names fields) := by
  induction fields with
  | nil => exact .slnil
  | cons field fields ih =>
    obtain ⟨key, _ | value⟩ := field
    · exact ih.cons key
    · exact ih.cons_cons key

/-- The entries for the fields that are there have these fields. -/
theorem Json.hasFields_present {fields : List (String × Option Json)}
    (h : (Table.names fields).Nodup) : HasFields (present fields) fields := by
  refine ⟨h.sublist (names_present_sublist fields), fun key ↦ ?_⟩
  induction fields with
  | nil => rfl
  | cons field fields ih =>
    obtain ⟨name, value⟩ := field
    obtain ⟨hname, hnd⟩ := List.nodup_cons.1 h
    rcases value with _ | value
    · show Table.find? key (present fields) = _
      rw [ih hnd, Table.find?]
      split
      · rename_i heq
        have hnone : Table.find? key fields = none := by
          rw [← Option.not_isSome_iff_eq_none, Table.find?_isSome_iff, ← heq]
          exact hname
        rw [hnone]
        rfl
      · rfl
    · show Table.find? key ((name, value) :: present fields) = _
      rw [Table.find?, Table.find?, ih hnd]
      split
      · rfl
      · rfl

/-! ### The form of types -/

mutual

/-- The manifest form of a type reference. The encoding of a byte sequence may be stated; there is
only one. -/
inductive TypeRef.Form : TypeRef → Json → Prop
  | reference {name : String} {entries : List (String × Json)}
    (h : HasFields entries [("$ref", some (.string name))]) :
    TypeRef.Form (.reference name) (.object entries)
  | scalar {kind : ScalarKind} {entries : List (String × Json)}
    (h : HasFields entries [("kind", some (.string kind.tag))]) :
    TypeRef.Form (.scalar kind) (.object entries)
  | bytes {length : ByteLength} {entries : List (String × Json)} {size encoding : Option Json}
    (hsize : length.WrittenAs size) (hencoding : encoding = none ∨ encoding = some (.string "hex"))
    (h : HasFields entries [("kind", some (.string "bytes")), ("size", size),
      ("encoding", encoding)]) :
    TypeRef.Form (.bytes length) (.object entries)
  | list {items : TypeRef} {entries : List (String × Json)} {inner : Json}
    (hitems : TypeRef.Form items inner)
    (h : HasFields entries [("kind", some (.string "list")), ("items", some inner)]) :
    TypeRef.Form (.list items) (.object entries)
  | map {key value : TypeRef} {entries : List (String × Json)} {innerKey innerValue : Json}
    (hkey : TypeRef.Form key innerKey) (hvalue : TypeRef.Form value innerValue)
    (h : HasFields entries
      [("kind", some (.string "map")), ("key", some innerKey), ("value", some innerValue)]) :
    TypeRef.Form (.map key value) (.object entries)
  | record {fields : List Field} {entries : List (String × Json)} {items : List Json}
    (hfields : List.Forall₂ Member.Form fields items)
    (h : HasFields entries [("kind", some (.string "record")), ("fields", some (.array items))]) :
    TypeRef.Form (.record fields) (.object entries)

/-- The manifest form of a field or a parameter. -/
inductive Member.Form : Member TypeRef → Json → Prop
  | intro {member : Member TypeRef} {entries : List (String × Json)} {inner : Json}
    {nullable : Option Json}
    (htype : TypeRef.Form member.type inner) (hnullable : FlagWrittenAs member.nullable nullable)
    (h : HasFields entries
      [("name", some (.string member.name)), ("type", some inner), ("nullable", nullable)]) :
    Member.Form member (.object entries)

end

/-- The manifest form of a case of a variant. -/
inductive Case.Form (case : Case) : Json → Prop
  | intro {entries : List (String × Json)} {payload : Option Json}
    (hpayload : Option.Rel TypeRef.Form case.payload payload)
    (h : HasFields entries
      [("name", some (.string case.name)), ("code", case.code.map .string), ("payload", payload)]) :
    Case.Form case (.object entries)

/-- The manifest form of a type definition. Records and byte sequences have the form that they have
as references. -/
inductive TypeDef.Form : TypeDef → Json → Prop
  | record {fields : List Field} {value : Json} (h : (TypeRef.record fields).Form value) :
    Form (.record fields) value
  | variant {cases : List Case} {entries : List (String × Json)} {items : List Json}
    (hcases : List.Forall₂ Case.Form cases items)
    (h : HasFields entries [("kind", some (.string "variant")),
      ("variants", some (.array items))]) :
    Form (.variant cases) (.object entries)
  | bytes {length : ByteLength} {value : Json} (h : (TypeRef.bytes length).Form value) :
    Form (.bytes length) value
  | aliasOf {target : TypeRef} {entries : List (String × Json)} {inner : Json}
    (htarget : target.Form inner)
    (h : HasFields entries [("kind", some (.string "alias")), ("target", some inner)]) :
    Form (.aliasOf target) (.object entries)

/-! ### The form of documents -/

/-- The manifest form of a way for a method to fail. -/
inductive MethodError.Form (error : MethodError) : Json → Prop
  | intro {entries : List (String × Json)} {payload : Option Json}
    (hpayload : Option.Rel TypeRef.Form error.payload payload)
    (h : HasFields entries [("code", some (.string error.code)), ("payload", payload)]) :
    MethodError.Form error (.object entries)

/-- The manifest form of a list of errors, which may be left out if there are none. -/
def ErrorsForm (errors : List MethodError) (value : Option Json) : Prop :=
  value = none ∧ errors = [] ∨ ∃ items, value = some (.array items) ∧
    List.Forall₂ MethodError.Form errors items

/-- The manifest form of a method. -/
inductive Method.Form (method : Method) : Json → Prop
  | intro {entries : List (String × Json)} {params : List Json}
    {returns nullable errors : Option Json}
    (hparams : List.Forall₂ Member.Form method.params params)
    (hreturns : Option.Rel TypeRef.Form method.returns returns)
    (hnullable : FlagWrittenAs method.returnsNullable nullable)
    (herrors : ErrorsForm method.errors errors) (h : HasFields entries
      [("name", some (.string method.name)), ("params", some (.array params)), ("returns", returns),
        ("returns_nullable", nullable), ("errors", errors)]) :
    Method.Form method (.object entries)

/-- The manifest form of an event. -/
inductive Event.Form (event : Event) : Json → Prop
  | intro {entries : List (String × Json)} {payload : Option Json}
    (hpayload : Option.Rel TypeRef.Form event.payload payload)
    (h : HasFields entries [("name", some (.string event.name)), ("payload", payload)]) :
    Event.Form event (.object entries)

/-- The manifest form of a document. The type table is in order. -/
inductive Document.Form (document : Document) : Json → Prop
  | intro {entries types : List (String × Json)} {methods events : List Json}
    (htypes : List.Forall₂ (fun entry written ↦ entry.1 = written.1 ∧ entry.2.Form written.2)
      document.types types)
    (hmethods : List.Forall₂ Method.Form document.methods methods)
    (hevents : List.Forall₂ Event.Form document.events events)
    (h : HasFields entries
      [("schema_version", some (.string document.version)), ("types", some (.object types)),
        ("methods", some (.array methods)), ("events", some (.array events))]) :
    Document.Form document (.object entries)

/-! ### Printing -/

/-- An object with the keys that have a value. -/
def Json.ofFields (fields : List (String × Option Json)) : Json := .object (present fields)

/-- A flag, unless it is not set and is to be left out. -/
def flagJson (full flag : Bool) : Option Json := if full || flag then some (.bool flag) else none

/-- A fixed length. -/
def ByteLength.toJson? : ByteLength → Option Json
  | any => none
  | fixed count => some (.number (.whole count.size.toNat))

mutual

/-- Prints a type reference. -/
def TypeRef.toJson (full : Bool) : TypeRef → Json
  | .reference name => .ofFields [("$ref", some (.string name))]
  | .scalar kind => .ofFields [("kind", some (.string kind.tag))]
  | .bytes length =>
    .ofFields [("kind", some (.string "bytes")), ("size", length.toJson?),
      ("encoding", if full then some (.string "hex") else none)]
  | .list items => .ofFields [("kind", some (.string "list")), ("items", some (items.toJson full))]
  | .map key value =>
    .ofFields [("kind", some (.string "map")), ("key", some (key.toJson full)),
      ("value", some (value.toJson full))]
  | .record fields =>
    .ofFields [("kind", some (.string "record")),
      ("fields", some (.array (membersToJson full fields)))]

/-- Prints fields or parameters. -/
def membersToJson (full : Bool) : List (Member TypeRef) → List Json
  | [] => []
  | ⟨name, type, nullable⟩ :: members =>
    .ofFields [("name", some (.string name)), ("type", some (type.toJson full)),
      ("nullable", flagJson full nullable)] :: membersToJson full members

end

/-- Prints a field or a parameter. -/
def Member.toJson (full : Bool) (member : Member TypeRef) : Json :=
  .ofFields [("name", some (.string member.name)), ("type", some (member.type.toJson full)),
    ("nullable", flagJson full member.nullable)]

theorem membersToJson_eq_map (full : Bool) (members : List (Member TypeRef)) :
    membersToJson full members = members.map (Member.toJson full) := by
  induction members with
  | nil => rw [membersToJson]; rfl
  | cons member members ih => rw [membersToJson, ih]; rfl

/-- Prints a case of a variant. -/
def Case.toJson (full : Bool) (case : Case) : Json :=
  .ofFields [("name", some (.string case.name)), ("code", case.code.map .string),
    ("payload", case.payload.map (TypeRef.toJson full))]

/-- Prints a type definition. -/
def TypeDef.toJson (full : Bool) : TypeDef → Json
  | record fields => (TypeRef.record fields).toJson full
  | variant cases =>
    .ofFields [("kind", some (.string "variant")),
      ("variants", some (.array (cases.map (Case.toJson full))))]
  | bytes length => (TypeRef.bytes length).toJson full
  | aliasOf target =>
    .ofFields [("kind", some (.string "alias")), ("target", some (target.toJson full))]

/-- Prints a way for a method to fail. -/
def MethodError.toJson (full : Bool) (error : MethodError) : Json :=
  .ofFields [("code", some (.string error.code)),
    ("payload", error.payload.map (TypeRef.toJson full))]

/-- Prints a method. -/
def Method.toJson (full : Bool) (method : Method) : Json :=
  .ofFields [("name", some (.string method.name)),
    ("params", some (.array (membersToJson full method.params))),
    ("returns", method.returns.map (TypeRef.toJson full)),
    ("returns_nullable", flagJson full method.returnsNullable),
    ("errors", if full || !method.errors.isEmpty then
      some (.array (method.errors.map (MethodError.toJson full))) else none)]

/-- Prints an event. -/
def Event.toJson (full : Bool) (event : Event) : Json :=
  .ofFields [("name", some (.string event.name)),
    ("payload", event.payload.map (TypeRef.toJson full))]

/-- Prints a document. -/
def Document.toJson (full : Bool) (document : Document) : Json :=
  .ofFields [("schema_version", some (.string document.version)),
    ("types", some (.object (document.types.map fun entry ↦ (entry.1, entry.2.toJson full)))),
    ("methods", some (.array (document.methods.map (Method.toJson full)))),
    ("events", some (.array (document.events.map (Event.toJson full))))]

/-! ### What is printed is a form -/

section Printed

variable (full : Bool)

/-- A flag is written out, or left out if it is not set and the form is not the full one. -/
theorem flagWrittenAs_flagJson (flag : Bool) : FlagWrittenAs flag (flagJson full flag) := by
  cases full with
  | true => exact .inl rfl
  | false =>
    cases flag with
    | true => exact .inl rfl
    | false => exact .inr ⟨rfl, rfl⟩

/-- A fixed length is in range, since it is a count of bytes. -/
theorem ByteLength.writtenAs_toJson? (length : ByteLength) : length.WrittenAs length.toJson? := by
  rcases length with _ | count
  · rfl
  · have hpos : count.size.toNat ≠ 0 := fun hzero ↦ count.size_ne_zero (UInt32.toNat_inj.1 hzero)
    have hlt := count.size.toNat_lt
    exact ⟨rfl, by omega, by omega⟩

/-- A part that may be left out is printed if it is there. -/
theorem rel_map_toJson {α : Type} {R : α → Json → Prop} {print : α → Json} (h : ∀ x, R x (print x))
    (x : Option α) : Option.Rel R x (x.map print) := by
  rcases x with _ | x
  · exact .none
  · exact .some (h x)

theorem forall₂_map_toJson {α : Type} {R : α → Json → Prop} {print : α → Json} {xs : List α}
    (h : ∀ x ∈ xs, R x (print x)) : List.Forall₂ R xs (xs.map print) := by
  rw [List.forall₂_map_right_iff, List.forall₂_same]
  exact h

theorem Member.form_toJson {member : Member TypeRef}
    (h : member.type.Form (member.type.toJson full)) : member.Form (member.toJson full) :=
  .intro h (flagWrittenAs_flagJson full member.nullable) (hasFields_present (by simp [Table.names]))

/-- What is printed for a type is a manifest form of it, whether or not it is the full one. -/
theorem TypeRef.form_toJson (type : TypeRef) : type.Form (type.toJson full) := by
  induction type with
  | reference name =>
    rw [toJson]
    exact .reference (hasFields_present (by simp [Table.names]))
  | scalar kind =>
    rw [toJson]
    exact .scalar (hasFields_present (by simp [Table.names]))
  | bytes length =>
    have hencoding : (if full then some (Json.string "hex") else none) = none ∨
        (if full then some (Json.string "hex") else none) = some (.string "hex") := by
      cases full with
      | true => exact .inr rfl
      | false => exact .inl rfl
    rw [toJson]
    exact .bytes length.writtenAs_toJson? hencoding (hasFields_present (by simp [Table.names]))
  | list items ih =>
    rw [toJson]
    exact .list ih (hasFields_present (by simp [Table.names]))
  | map key value ihKey ihValue =>
    rw [toJson]
    exact .map ihKey ihValue (hasFields_present (by simp [Table.names]))
  | record fields ih =>
    rw [toJson, membersToJson_eq_map]
    exact .record (forall₂_map_toJson fun field hfield ↦ Member.form_toJson full (ih field hfield))
      (hasFields_present (by simp [Table.names]))

theorem forall₂_membersToJson (members : List (Member TypeRef)) :
    List.Forall₂ Member.Form members (membersToJson full members) := by
  rw [membersToJson_eq_map]
  exact forall₂_map_toJson fun member _ ↦ Member.form_toJson full (member.type.form_toJson full)

theorem rel_typeRef_toJson (type : Option TypeRef) :
    Option.Rel TypeRef.Form type (type.map (TypeRef.toJson full)) :=
  rel_map_toJson (fun type ↦ type.form_toJson full) type

theorem Case.form_toJson (case : Case) : case.Form (case.toJson full) :=
  .intro (rel_typeRef_toJson full case.payload) (hasFields_present (by simp [Table.names]))

/-- What is printed for a definition is a manifest form of it. A record or a byte sequence is
printed as the type of that kind. -/
theorem TypeDef.form_toJson (typeDef : TypeDef) : typeDef.Form (typeDef.toJson full) := by
  cases typeDef with
  | record fields => exact .record (TypeRef.form_toJson full _)
  | variant cases =>
    exact .variant (forall₂_map_toJson fun case _ ↦ case.form_toJson full)
      (hasFields_present (by simp [Table.names]))
  | bytes length => exact .bytes (TypeRef.form_toJson full _)
  | aliasOf target =>
    exact .aliasOf (target.form_toJson full) (hasFields_present (by simp [Table.names]))

theorem MethodError.form_toJson (error : MethodError) : error.Form (error.toJson full) :=
  .intro (rel_typeRef_toJson full error.payload) (hasFields_present (by simp [Table.names]))

/-- The list of errors is left out only if there are none. -/
theorem errorsForm_toJson (errors : List MethodError) :
    ErrorsForm errors (if full || !errors.isEmpty then
      some (.array (errors.map (MethodError.toJson full))) else none) := by
  split
  · exact .inr ⟨_, rfl, forall₂_map_toJson fun error _ ↦ error.form_toJson full⟩
  · rename_i h
    have hempty : errors.isEmpty =
        true := by simpa using (Bool.or_eq_false_iff.1 (Bool.eq_false_of_not_eq_true h)).2
    exact .inl ⟨rfl, List.isEmpty_iff.1 hempty⟩

/-- What is printed for a method is a manifest form of it. -/
theorem Method.form_toJson (method : Method) : method.Form (method.toJson full) :=
  .intro (forall₂_membersToJson full method.params) (rel_typeRef_toJson full method.returns)
    (flagWrittenAs_flagJson full method.returnsNullable) (errorsForm_toJson full method.errors)
    (hasFields_present (by simp [Table.names]))

theorem Event.form_toJson (event : Event) : event.Form (event.toJson full) :=
  .intro (rel_typeRef_toJson full event.payload) (hasFields_present (by simp [Table.names]))

/-- What is printed for a document is a manifest form of it. -/
theorem Document.form_toJson (document : Document) : document.Form (document.toJson full) := by
  refine .intro ?_ (forall₂_map_toJson fun method _ ↦ method.form_toJson full)
    (forall₂_map_toJson fun event _ ↦ event.form_toJson full)
    (hasFields_present (by simp [Table.names]))
  rw [List.forall₂_map_right_iff, List.forall₂_same]
  exact fun entry _ ↦ ⟨rfl, entry.2.form_toJson full⟩

end Printed

/-! ### Names -/

mutual

/-- The names in a type reference: those of the types that it refers to, and those of fields. -/
def TypeRef.givenNames : TypeRef → List String
  | .reference name => [name]
  | .scalar _ | .bytes _ => []
  | .list items => items.givenNames
  | .map key value => key.givenNames ++ value.givenNames
  | .record fields => memberGivenNames fields

/-- The names of fields or parameters and those in their types. -/
def memberGivenNames : List (Member TypeRef) → List String
  | [] => []
  | ⟨name, type, _⟩ :: members => name :: type.givenNames ++ memberGivenNames members

end

/-- The names in a payload, if there is one. -/
def payloadNames (payload : Option TypeRef) : List String := payload.elim [] TypeRef.givenNames

/-- The names in a type definition. -/
def TypeDef.givenNames : TypeDef → List String
  | record fields => memberGivenNames fields
  | variant cases => cases.flatMap fun case ↦ case.name :: payloadNames case.payload
  | bytes _ => []
  | aliasOf target => target.givenNames

/-- The names in a method, and the codes of its errors. -/
def Method.givenNames (method : Method) : List String :=
  method.name :: memberGivenNames method.params ++ payloadNames method.returns ++
    method.errors.flatMap fun error ↦ error.code :: payloadNames error.payload

/-- The names in a document: those of types, fields, cases, methods, parameters and events, the
codes of errors, and the names that refer to types. -/
def Document.givenNames (document : Document) : List String :=
  document.types.flatMap (fun entry ↦ entry.1 :: entry.2.givenNames) ++
    document.methods.flatMap Method.givenNames ++
    document.events.flatMap fun event ↦ event.name :: payloadNames event.payload

end AbiBindings
