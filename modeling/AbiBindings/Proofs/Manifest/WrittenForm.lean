import AbiBindings.Json.Basic
import AbiBindings.Manifest.Basic
import AbiBindings.Proofs.Table
import Mathlib.Data.List.Forall2

/-!
# The written form of a manifest

`WrittenAs` says which JSON values write down a type reference, a type definition and so on up to a
whole document. It relates every part of a document to the value under one key, so that nothing of
the document is left open by the value. A fixed length is written as a whole number.

JSON has two ways to write a whole number, and a fixed length may also stand there as a double:
`HasDoubleSize` says that somewhere in a value it does.
-/

namespace AbiBindings

/-! ### Doubles for fixed lengths -/

/-- Somewhere in the value stands a byte sequence whose fixed length is written as a double. -/
inductive Json.HasDoubleSize : Json → Prop
  | here {entries : List (String × Json)} {size : Number.Double}
    (hkind : Table.find? "kind" entries = some (.string "bytes"))
    (hsize : Table.find? "size" entries = some (.number (.double size))) :
    HasDoubleSize (.object entries)
  | item {items : List Json} {item : Json} (hitem : item ∈ items) (h : item.HasDoubleSize) :
    HasDoubleSize (.array items)
  | entry {entries : List (String × Json)} {key : String} {value : Json}
    (hentry : (key, value) ∈ entries) (h : value.HasDoubleSize) : HasDoubleSize (.object entries)

namespace Json

/-- Induction on a value, with a hypothesis for each item of a list and each entry of an object. -/
@[elab_as_elim, induction_eliminator]
theorem induction {motive : Json → Prop} (null : motive .null) (bool : ∀ b, motive (.bool b))
    (number : ∀ n, motive (.number n)) (string : ∀ s, motive (.string s))
    (array : ∀ items : List Json, (∀ item ∈ items, motive item) → motive (.array items))
    (object : ∀ entries : List (String × Json), (∀ entry ∈ entries, motive entry.2) →
      motive (.object entries)) :
    ∀ value, motive value
  | .null => null
  | .bool b => bool b
  | .number n => number n
  | .string s => string s
  | .array items => array items fun item _ ↦ induction null bool number string array object item
  | .object entries =>
    object entries fun entry _ ↦ induction null bool number string array object entry.2
decreasing_by
  · rename_i hmem
    have hlt := List.sizeOf_lt_of_mem hmem
    rw [Json.array.sizeOf_spec]
    omega
  · rename_i hmem
    have hlt := List.sizeOf_lt_of_mem hmem
    obtain ⟨key, value⟩ := entry
    rw [Prod.mk.sizeOf_spec] at hlt
    rw [Json.object.sizeOf_spec]
    show sizeOf value < 1 + sizeOf entries
    omega

theorem wellFormed_array_iff {items : List Json} :
    (array items).WellFormed ↔ ∀ item ∈ items, item.WellFormed := by
  rw [WellFormed]
  induction items with
  | nil => simp [WellFormedItems]
  | cons item items ih => rw [WellFormedItems, ih, List.forall_mem_cons]

theorem wellFormed_object_iff {entries : List (String × Json)} :
    (object entries).WellFormed ↔ (Table.names entries).Nodup ∧
      ∀ entry ∈ entries, entry.2.WellFormed := by
  have hentries : WellFormedEntries entries ↔ ∀ entry ∈ entries, entry.2.WellFormed := by
    induction entries with
    | nil => simp [WellFormedEntries]
    | cons entry entries ih => rw [WellFormedEntries, ih, List.forall_mem_cons]
  rw [WellFormed, hentries]
  rfl

theorem hasDoubleSize_array_iff {items : List Json} :
    (array items).HasDoubleSize ↔ ∃ item ∈ items, item.HasDoubleSize := by
  constructor
  · intro h
    cases h with
    | item hitem h => exact ⟨_, hitem, h⟩
  · rintro ⟨item, hitem, h⟩
    exact .item hitem h

/-- Outside of byte sequences, a double for a fixed length stands inside one of the values. -/
theorem hasDoubleSize_object_iff {entries : List (String × Json)}
    (hkind : Table.find? "kind" entries ≠ some (.string "bytes")) :
    (object entries).HasDoubleSize ↔ ∃ entry ∈ entries, entry.2.HasDoubleSize := by
  constructor
  · intro h
    cases h with
    | here hbytes _ => exact absurd hbytes hkind
    | entry hentry h => exact ⟨_, hentry, h⟩
  · rintro ⟨entry, hentry, h⟩
    exact .entry hentry h

/-- The same, by the keys under which the values stand. -/
theorem hasDoubleSize_iff_exists_key {entries : List (String × Json)}
    (hnd : (Table.names entries).Nodup)
    (hkind : Table.find? "kind" entries ≠ some (.string "bytes")) {keys : List String}
    (hkeys : ∀ key ∈ Table.names entries, key ∈ keys) :
    (object entries).HasDoubleSize ↔
      ∃ key ∈ keys, ∃ value, Table.find? key entries = some value ∧ value.HasDoubleSize := by
  rw [hasDoubleSize_object_iff hkind]
  constructor
  · rintro ⟨⟨key, value⟩, hentry, h⟩
    exact ⟨key, hkeys key (Table.mem_names_iff.2 ⟨value, hentry⟩), value,
      (Table.find?_eq_some_iff hnd).2 hentry, h⟩
  · rintro ⟨key, -, value, hfind, h⟩
    exact ⟨(key, value), Table.mem_of_find?_eq_some hfind, h⟩

end Json

/-! ### Types -/

/-- A fixed length is a whole number of 32 bits that is not zero; any length is written as none. -/
def ByteLength.WrittenAs : ByteLength → Option Json → Prop
  | any, size => size = none
  | fixed count, size =>
    size = some (.number (.whole count.size.toNat)) ∧ 1 ≤ count.size.toNat ∧
      count.size.toNat ≤ 4294967295

/-- A flag that is not set may be left out. -/
def FlagWrittenAs (flag : Bool) (value : Option Json) : Prop :=
  value = some (.bool flag) ∨ value = none ∧ flag = false

/-- A text. -/
def TextWrittenAs (text : String) (value : Json) : Prop := value = .string text

mutual

/-- A type reference. -/
inductive TypeRef.WrittenAs : TypeRef → Json → Prop
  | reference {name : String} {value : Json} (h : value.get? "$ref" = some (.string name)) :
    TypeRef.WrittenAs (.reference name) value
  | scalar {kind : ScalarKind} {value : Json} (h : value.get? "kind" = some (.string kind.tag)) :
    TypeRef.WrittenAs (.scalar kind) value
  | bytes {length : ByteLength} {value : Json} (hkind : value.get? "kind" = some (.string "bytes"))
    (h : length.WrittenAs (value.get? "size")) : TypeRef.WrittenAs (.bytes length) value
  | list {items : TypeRef} {value inner : Json} (hkind : value.get? "kind" = some (.string "list"))
    (hitems : value.get? "items" = some inner) (h : TypeRef.WrittenAs items inner) :
    TypeRef.WrittenAs (.list items) value
  | map {key val : TypeRef} {value innerKey innerValue : Json}
    (hkind : value.get? "kind" = some (.string "map"))
    (hkey : value.get? "key" = some innerKey) (hvalue : value.get? "value" = some innerValue)
    (h : TypeRef.WrittenAs key innerKey) (h' : TypeRef.WrittenAs val innerValue) :
    TypeRef.WrittenAs (.map key val) value
  | record {fields : List Field} {value : Json} {items : List Json}
    (hkind : value.get? "kind" = some (.string "record"))
    (hfields : value.get? "fields" = some (.array items))
    (h : List.Forall₂ Member.WrittenAs fields items) : TypeRef.WrittenAs (.record fields) value

/-- A field or a parameter. -/
inductive Member.WrittenAs : Member TypeRef → Json → Prop
  | intro {member : Member TypeRef} {value inner : Json}
    (hname : value.get? "name" = some (.string member.name))
    (htype : value.get? "type" = some inner) (h : TypeRef.WrittenAs member.type inner)
    (hnullable : FlagWrittenAs member.nullable (value.get? "nullable")) :
    Member.WrittenAs member value

end

/-- A case of a variant. -/
structure Case.WrittenAs (case : Case) (value : Json) : Prop where
  name : value.get? "name" = some (.string case.name)
  code : Option.Rel TextWrittenAs case.code (value.get? "code")
  payload : Option.Rel TypeRef.WrittenAs case.payload (value.get? "payload")

/-- A type definition. -/
inductive TypeDef.WrittenAs : TypeDef → Json → Prop
  | record {fields : List Field} {value : Json} {items : List Json}
    (hkind : value.get? "kind" = some (.string "record"))
    (hfields : value.get? "fields" = some (.array items))
    (h : List.Forall₂ Member.WrittenAs fields items) : WrittenAs (.record fields) value
  | variant {cases : List Case} {value : Json} {items : List Json}
    (hkind : value.get? "kind" = some (.string "variant"))
    (hcases : value.get? "variants" = some (.array items))
    (h : List.Forall₂ Case.WrittenAs cases items) : WrittenAs (.variant cases) value
  | bytes {length : ByteLength} {value : Json} (hkind : value.get? "kind" = some (.string "bytes"))
    (h : length.WrittenAs (value.get? "size")) : WrittenAs (.bytes length) value
  | aliasOf {target : TypeRef} {value inner : Json}
    (hkind : value.get? "kind" = some (.string "alias"))
    (htarget : value.get? "target" = some inner) (h : target.WrittenAs inner) :
    WrittenAs (.aliasOf target) value

/-! ### Methods, events and documents -/

/-- A way for a method to fail. -/
structure MethodError.WrittenAs (error : MethodError) (value : Json) : Prop where
  code : value.get? "code" = some (.string error.code)
  payload : Option.Rel TypeRef.WrittenAs error.payload (value.get? "payload")

/-- A method. If there are no errors their list may be left out. -/
structure Method.WrittenAs (method : Method) (value : Json) : Prop where
  name : value.get? "name" = some (.string method.name)
  params : ∃ items, value.get? "params" = some (.array items) ∧
    List.Forall₂ Member.WrittenAs method.params items
  returns : Option.Rel TypeRef.WrittenAs method.returns (value.get? "returns")
  returnsNullable : FlagWrittenAs method.returnsNullable (value.get? "returns_nullable")
  errors : value.get? "errors" = none ∧ method.errors = [] ∨
    ∃ items, value.get? "errors" = some (.array items) ∧
    List.Forall₂ MethodError.WrittenAs method.errors items

/-- An event. -/
structure Event.WrittenAs (event : Event) (value : Json) : Prop where
  name : value.get? "name" = some (.string event.name)
  payload : Option.Rel TypeRef.WrittenAs event.payload (value.get? "payload")

/-- An entry of the type table. -/
def EntryWrittenAs (entry : String × TypeDef) (written : String × Json) : Prop :=
  entry.1 = written.1 ∧ entry.2.WrittenAs written.2

/-- A document. -/
structure Document.WrittenAs (document : Document) (value : Json) : Prop where
  version : value.get? "schema_version" = some (.string document.version)
  types : ∃ entries, value.get? "types" = some (.object entries) ∧
    List.Forall₂ EntryWrittenAs document.types entries
  methods : ∃ items, value.get? "methods" = some (.array items) ∧
    List.Forall₂ Method.WrittenAs document.methods items
  events : ∃ items, value.get? "events" = some (.array items) ∧
    List.Forall₂ Event.WrittenAs document.events items

end AbiBindings
