import AbiBindings.Proofs.Manifest.FormatAgreement
import AbiBindings.Proofs.Manifest.ManifestForm

/-!
# Every document can be written

Every document with distinct type names and without empty names has a manifest form, and every
manifest form of it satisfies the format and is read as this document (`Document.forms_read_back`).

That a value in the format is read as something that it writes down is known (`readsAs_document`).
So of each manifest form three things are shown, from type references up to documents (`Expresses`):
it is a plain value, without repeated keys and without doubles; it passes its check; and nothing
else is written down by it.
-/

namespace AbiBindings

open Json Grammar

variable {α : Type}

/-! ### Plain values -/

/-- The value repeats no key, has no double for a fixed length, and is no double itself. -/
structure Json.Plain (value : Json) : Prop where
  wellFormed : value.WellFormed
  noDoubleSize : ¬ value.HasDoubleSize
  noDouble : ∀ x, value ≠ .number (.double x)

theorem Json.plain_string (text : String) : (string text).Plain :=
  ⟨trivial, nofun, nofun⟩

theorem Json.plain_bool (flag : Bool) : (bool flag).Plain :=
  ⟨trivial, nofun, nofun⟩

theorem Json.plain_whole (number : Int) : (Json.number (.whole number)).Plain :=
  ⟨trivial, nofun, nofun⟩

/-- A list is plain if its items are. -/
theorem Json.plain_array {items : List Json} (h : ∀ item ∈ items, item.Plain) :
    (array items).Plain := by
  refine ⟨wellFormed_array_iff.2 fun item hitem ↦ (h item hitem).wellFormed, ?_, nofun⟩
  rw [hasDoubleSize_array_iff]
  rintro ⟨item, hitem, hdouble⟩
  exact (h item hitem).noDoubleSize hdouble

/-- An object is plain if its keys are distinct and its values are plain. A number in it is no
double, so none is a size. -/
theorem Json.plain_object {entries : List (String × Json)} (hnd : (Table.names entries).Nodup)
    (h : ∀ entry ∈ entries, entry.2.Plain) : (object entries).Plain := by
  refine ⟨wellFormed_object_iff.2 ⟨hnd, fun entry hentry ↦ (h entry hentry).wellFormed⟩,
    fun hdouble ↦ ?_, nofun⟩
  cases hdouble with
  | here _ hsize => exact (h _ (Table.mem_of_find?_eq_some hsize)).noDouble _ rfl
  | entry hentry hinner => exact (h _ hentry).noDoubleSize hinner

/-! ### Objects with given keys -/

namespace Json.HasFields

variable {entries : List (String × Json)} {fields : List (String × Option Json)}
    (h : HasFields entries fields)
include h

theorem mem_fields {entry : String × Json} (hentry : entry ∈ entries) :
    (entry.1, some entry.2) ∈ fields := by
  have hfind := (Table.find?_eq_some_iff h.nodup).2 hentry
  rw [h.find?, Option.join_eq_some_iff] at hfind
  exact Table.mem_of_find?_eq_some hfind

/-- A key has the value that the field says, and none if the field is left out. -/
theorem get? (key : String) : (object entries).get? key = (Table.find? key fields).join :=
  h.find? key

/-- An object is plain if those of its fields are that are there. -/
theorem plain (hplain : ∀ field ∈ fields, ∀ value, field.2 = some value → value.Plain) :
    (object entries).Plain :=
  plain_object h.nodup fun _ hentry ↦ hplain _ (h.mem_fields hentry) _ rfl

/-- A field that is there passes for a required key. -/
theorem valueAt {key : String} {value : Json} (hvalue : Table.find? key fields = some (some value))
    {test : Json → Bool} (htest : test value = true) : Grammar.valueAt test key entries = true :=
  valueAt_iff.2 ⟨value, by rw [h.find?, hvalue]; rfl, htest⟩

/-- A field passes for an optional key if it passes when it is there. -/
theorem valueIfAt {key : String} {value : Option Json}
    (hvalue : Table.find? key fields = some value) {test : Json → Bool}
    (htest : ∀ inner, value = some inner → test inner = true) :
    Grammar.valueIfAt test key entries = true := by
  refine valueIfAt_iff.2 fun inner hinner ↦ htest inner ?_
  rwa [h.find?, hvalue] at hinner

variable {required : List String}
    (hrequired : required.all (fun key ↦ (Table.find? key fields).join.isSome) = true)
include hrequired

theorem contains_required : ∀ key ∈ required, Table.contains key entries = true := by
  intro key hkey
  rw [Table.contains, h.find?]
  exact List.all_eq_true.1 hrequired key hkey

/-- The keys of an object are right if those of its fields are known and the required ones are
there. -/
theorem hasKeys {optional : List String}
    (hkeys : (Table.names fields).all
      (fun key ↦ required.contains key || optional.contains key) = true) :
    Grammar.hasKeys required optional entries = true := by
  rw [Grammar.hasKeys, Bool.and_eq_true, List.all_eq_true, List.all_eq_true]
  refine ⟨h.contains_required hrequired, fun entry hentry ↦ ?_⟩
  exact List.all_eq_true.1 hkeys entry.1 (Table.mem_names_iff.2 ⟨_, h.mem_fields hentry⟩)

/-- Nothing is wrong with an object if all that is required is there, and each key has a check that
its value passes. -/
theorem object_eq_nil {members : List (String × Schema.Check)}
    (hchecks : ∀ field ∈ fields, ∃ check, Table.find? field.1 members = some check ∧
      ∀ value, field.2 = some value → check value = []) :
    Schema.object required members (.object entries) = [] := by
  have hmissing : Schema.missingKeys required entries = [] := by
    rw [Schema.missingKeys, List.flatMap_eq_nil_iff]
    intro key hkey
    obtain ⟨hkey, habsent⟩ := List.mem_filter.1 hkey
    rw [h.contains_required hrequired key hkey] at habsent
    cases habsent
  have hknown : Schema.knownEntries members entries = [] := by
    rw [Schema.knownEntries, List.flatMap_eq_nil_iff]
    intro entry hentry
    obtain ⟨check, hcheck, hpasses⟩ := hchecks _ (h.mem_fields hentry)
    simp only [hcheck, hpasses _ rfl, List.map_nil]
  have hunknown : (Table.names entries).filter (!(Table.names members).contains ·) = [] := by
    rw [List.filter_eq_nil_iff]
    intro key hkey
    obtain ⟨value, hentry⟩ := Table.mem_names_iff.1 hkey
    obtain ⟨check, hcheck, -⟩ := hchecks _ (h.mem_fields hentry)
    have hmem := Table.find?_isSome_iff.1 (Option.isSome_of_eq_some hcheck)
    simpa using hmem
  rw [Schema.object, hmissing, hknown, Schema.unknownKeys, hunknown]
  rfl

end Json.HasFields

/-! ### What a form expresses -/

/-- The value is plain and accepted, and writes down this and nothing else. -/
structure Expresses (written : α → Json → Prop) (accepted : Json → Prop) (x : α) (value : Json) :
    Prop where
  plain : value.Plain
  accepted : accepted value
  unique : ∀ y, written y value → y = x

section Parts

variable {form written : α → Json → Prop} {accepted : Json → Prop}

/-- Item by item, a list of forms is plain, accepted, and writes down one list only. -/
theorem expresses_forall₂ {xs : List α} {values : List Json} (h : List.Forall₂ form xs values)
    (hparts : ∀ x ∈ xs, ∀ value, form x value → Expresses written accepted x value) :
    (∀ value ∈ values, value.Plain ∧ accepted value) ∧
      ∀ ys, List.Forall₂ written ys values → ys = xs := by
  induction h with
  | nil => exact ⟨List.forall_mem_nil _, fun ys hys ↦ List.forall₂_nil_right_iff.1 hys⟩
  | @cons x value xs values hx _ ih =>
    have hfirst := hparts x List.mem_cons_self value hx
    obtain ⟨hrest, hunique⟩ := ih fun other hother ↦ hparts other (List.mem_cons_of_mem x hother)
    refine ⟨List.forall_mem_cons.2 ⟨⟨hfirst.plain, hfirst.accepted⟩, hrest⟩, fun ys hys ↦ ?_⟩
    obtain ⟨y, others, hy, hothers, rfl⟩ := List.forall₂_cons_right_iff.1 hys
    rw [hfirst.unique y hy, hunique others hothers]

/-- The same of a part that may be left out. -/
theorem expresses_option {x : Option α} {value : Option Json} (h : Option.Rel form x value)
    (hpart : ∀ part, x = some part →
      ∀ inner, form part inner → Expresses written accepted part inner) :
    (∀ inner, value = some inner → inner.Plain ∧ accepted inner) ∧
      ∀ y, Option.Rel written y value → y = x := by
  cases h with
  | none =>
    refine ⟨nofun, fun y hy ↦ ?_⟩
    cases hy
    rfl
  | @some part inner h =>
    have hinner := hpart part rfl inner h
    refine ⟨fun other hother ↦ ?_, fun y hy ↦ ?_⟩
    · cases hother
      exact ⟨hinner.plain, hinner.accepted⟩
    · cases hy with
      | some hy => rw [hinner.unique _ hy]

end Parts

/-- A flag that is left out is not set, so it is known in both cases. -/
theorem flag_of_flagWrittenAs {flag : Bool} {value : Option Json} (h : FlagWrittenAs flag value) :
    (∀ inner, value = some inner → inner = .bool flag) ∧
      ∀ other, FlagWrittenAs other value → other = flag := by
  rcases h with rfl | ⟨rfl, rfl⟩
  · refine ⟨fun inner hinner ↦ (Option.some.inj hinner).symm, fun other hother ↦ ?_⟩
    rcases hother with hother | ⟨hother, -⟩
    · cases hother
      rfl
    · cases hother
  · refine ⟨nofun, fun other hother ↦ ?_⟩
    rcases hother with hother | ⟨-, rfl⟩
    · cases hother
    · rfl

/-- A size that is written down is a count of bytes, and is that of one length only. -/
theorem ByteLength.WrittenAs.size {length : ByteLength} {size : Option Json}
    (h : length.WrittenAs size) :
    (∀ inner, size = some inner → inner.Plain ∧ isByteCount inner = true) ∧
      ∀ other : ByteLength, other.WrittenAs size → other = length := by
  rcases length with _ | count
  · obtain rfl : size = none := h
    refine ⟨nofun, fun other hother ↦ ?_⟩
    rcases other with _ | other
    · rfl
    · cases hother.1
  · obtain ⟨rfl, hpos, hle⟩ := h
    refine ⟨fun inner hinner ↦ ?_, fun other hother ↦ ?_⟩
    · cases hinner
      refine ⟨plain_whole _, ?_⟩
      show (decide (1 ≤ (count.size.toNat : Int)) &&
        decide ((count.size.toNat : Int) ≤ 4294967295)) = true
      rw [Bool.and_eq_true, decide_eq_true_eq, decide_eq_true_eq]
      omega
    · rcases other with _ | ⟨size, hsize⟩
      · cases hother
      · have hnat : count.size.toNat = size.toNat := by
          have hsome := hother.1
          simp only [Option.some.injEq, number.injEq, JsonNumber.whole.injEq] at hsome
          omega
        obtain rfl := UInt32.toNat_inj.1 hnat
        rfl

/-! ### Types -/

theorem ScalarKind.ofTag?_tag (kind : ScalarKind) : ofTag? kind.tag = some kind := by
  cases kind <;> decide

/-- The word for a kind of scalar tells which one it is. -/
theorem ScalarKind.tag_injective {kind other : ScalarKind} (h : kind.tag = other.tag) :
    kind = other := by
  have hread := congrArg ofTag? h
  rw [ofTag?_tag, ofTag?_tag] at hread
  exact Option.some.inj hread

/-- The word for a kind of type references. -/
def TypeRef.word? : TypeRef → Option String
  | reference _ => none
  | scalar kind => some kind.tag
  | bytes _ => some "bytes"
  | list _ => some "list"
  | map _ _ => some "map"
  | record _ => some "record"

/-- The type references are of the same kind. -/
def TypeRef.Alike : TypeRef → TypeRef → Prop
  | reference _, reference _ => True
  | scalar kind, scalar other => kind = other
  | bytes _, bytes _ => True
  | list _, list _ => True
  | map _ _, map _ _ => True
  | record _, record _ => True
  | _, _ => False

/-- No two kinds have the same word. -/
theorem TypeRef.alike_of_word? {type other : TypeRef} (h : type.word? = other.word?) :
    type.Alike other := by
  cases type with
  | scalar kind =>
    cases other with
    | scalar other => exact ScalarKind.tag_injective (Option.some.inj h)
    | _ => cases kind <;> simp [word?, ScalarKind.tag] at h
  | _ =>
    cases other with
    | scalar other => cases other <;> simp [word?, ScalarKind.tag] at h
    | _ => simp_all [word?, Alike]

/-- A value that writes down a type has a name or a word for its kind. -/
theorem TypeRef.WrittenAs.reference_or_word {type : TypeRef} {value : Json}
    (h : type.WrittenAs value) :
    (∃ name, type = .reference name ∧ value.get? "$ref" = some (.string name)) ∨
      ∃ word, type.word? = some word ∧ value.get? "kind" = some (.string word) := by
  cases h with
  | reference h => exact .inl ⟨_, rfl, h⟩
  | scalar h => exact .inr ⟨_, rfl, h⟩
  | bytes hkind _ => exact .inr ⟨_, rfl, hkind⟩
  | list hkind _ _ => exact .inr ⟨_, rfl, hkind⟩
  | map hkind _ _ _ _ => exact .inr ⟨_, rfl, hkind⟩
  | record hkind _ _ => exact .inr ⟨_, rfl, hkind⟩

/-- Types that are written down by one value are of one kind, as its word says. -/
theorem TypeRef.WrittenAs.alike {type other : TypeRef} {value : Json} (h : other.WrittenAs value)
    (href : value.get? "$ref" = none) {word : String} (hword : type.word? = some word)
    (hkind : value.get? "kind" = some (.string word)) : type.Alike other := by
  rcases h.reference_or_word with ⟨name, -, hname⟩ | ⟨stated, hstated, hother⟩
  · rw [href] at hname
    cases hname
  · rw [hkind] at hother
    cases hother
    exact alike_of_word? (hword.trans hstated.symm)

/-- The forms of a type reference, with the values under their keys looked up. -/
theorem isTypeRef_object_iff {entries : List (String × Json)} :
    isTypeRef (.object entries) = true ↔
      isReference entries = true ∨ isScalar entries = true ∨ isBytes entries = true ∨
      (hasKeys ["kind", "items"] [] entries = true ∧ valueAt (isWord "list") "kind" entries = true ∧
        valueAt isTypeRef "items" entries = true) ∨
      (hasKeys ["kind", "key", "value"] [] entries = true ∧
        valueAt (isWord "map") "kind" entries = true ∧
        valueAt isTypeRef "key" entries = true ∧ valueAt isTypeRef "value" entries = true) ∨
      (hasKeys ["kind", "fields"] [] entries = true ∧
        valueAt (isWord "record") "kind" entries = true ∧
        valueAt isFieldList "fields" entries = true) := by
  rw [isTypeRef]
  simp only [Bool.or_eq_true, Bool.and_eq_true, isTypeRefAt_eq_valueAt, isFieldListAt_eq_valueAt,
    or_assoc, and_assoc]

/-- A type reference is expressed by the value. -/
abbrev TypeRef.Expressed (type : TypeRef) (value : Json) : Prop :=
  Expresses TypeRef.WrittenAs (isTypeRef · = true) type value

/-- A field or a parameter is expressed by the value. -/
abbrev Member.Expressed (member : Member TypeRef) (value : Json) : Prop :=
  Expresses Member.WrittenAs (fun value ↦ isField value = true ∧ Schema.parameter value = [])
    member value

section TypeRefs

variable {entries : List (String × Json)}

/-- A name is expressed by a `$ref`, unless it is empty. -/
theorem expressed_reference {name : String} (hname : name ≠ "")
    (h : HasFields entries [("$ref", some (.string name))]) :
    (TypeRef.reference name).Expressed (.object entries) := by
  refine ⟨h.plain (by simp [plain_string]), isTypeRef_object_iff.2 (.inl ?_), fun other hother ↦ ?_⟩
  · rw [isReference, Bool.and_eq_true]
    exact ⟨h.hasKeys rfl rfl, h.valueAt rfl (by simpa [isName] using hname)⟩
  · rcases hother.reference_or_word with ⟨stated, rfl, hstated⟩ | ⟨word, -, hword⟩
    · rw [h.get?] at hstated
      cases hstated
      rfl
    · rw [h.get?] at hword
      cases hword

theorem expressed_scalar {kind : ScalarKind}
    (h : HasFields entries [("kind", some (.string kind.tag))]) :
    (TypeRef.scalar kind).Expressed (.object entries) := by
  have hkind : kind ∈ ScalarKind.all := by cases kind <;> decide
  refine ⟨h.plain (by simp [plain_string]), isTypeRef_object_iff.2 (.inr (.inl ?_)),
    fun other hother ↦ ?_⟩
  · rw [isScalar, Bool.and_eq_true, List.any_eq_true]
    exact ⟨h.hasKeys rfl rfl, kind, hkind, h.valueAt rfl (isWord_iff.2 rfl)⟩
  · have halike : (TypeRef.scalar kind).Alike other :=
      hother.alike (h.get? "$ref") rfl (h.get? "kind")
    cases other with
    | scalar other => rw [show kind = other from halike]
    | _ => exact halike.elim

/-- The parts of a byte sequence, which has the same form as a reference and as a definition. -/
theorem bytes_of_hasFields {length : ByteLength} {size encoding : Option Json}
    (hsize : length.WrittenAs size) (hencoding : encoding = none ∨ encoding = some (.string "hex"))
    (h : HasFields entries [("kind", some (.string "bytes")), ("size", size),
      ("encoding", encoding)]) :
    (object entries).Plain ∧ isBytes entries = true ∧
      ∀ other : ByteLength, other.WrittenAs ((object entries).get? "size") → other = length := by
  obtain ⟨hcount, hunique⟩ := hsize.size
  have hhex : ∀ inner, encoding = some inner → inner = .string "hex" := by
    rintro inner rfl
    simpa using hencoding
  refine ⟨h.plain ?_, ?_, fun other hother ↦ hunique other ?_⟩
  · simp only [List.forall_mem_cons, Option.some.injEq, forall_eq']
    exact ⟨plain_string _, fun inner hinner ↦ (hcount inner hinner).1,
      fun inner hinner ↦ hhex inner hinner ▸ plain_string _, List.forall_mem_nil _⟩
  · simp only [isBytes, Bool.and_eq_true]
    exact ⟨⟨⟨h.hasKeys rfl rfl, h.valueAt rfl (isWord_iff.2 rfl)⟩,
      h.valueIfAt rfl fun inner hinner ↦ (hcount inner hinner).2⟩,
      h.valueIfAt rfl fun inner hinner ↦ isWord_iff.2 (hhex inner hinner)⟩
  · rwa [h.get?] at hother

/-- A byte sequence is expressed with or without an encoding, which is not read. -/
theorem expressed_bytes {length : ByteLength} {size encoding : Option Json}
    (hsize : length.WrittenAs size) (hencoding : encoding = none ∨ encoding = some (.string "hex"))
    (h : HasFields entries [("kind", some (.string "bytes")), ("size", size),
      ("encoding", encoding)]) :
    (TypeRef.bytes length).Expressed (.object entries) := by
  obtain ⟨hplain, hbytes, hunique⟩ := bytes_of_hasFields hsize hencoding h
  refine ⟨hplain, isTypeRef_object_iff.2 (.inr (.inr (.inl hbytes))), fun other hother ↦ ?_⟩
  have halike : (TypeRef.bytes length).Alike other :=
    hother.alike (h.get? "$ref") rfl (h.get? "kind")
  cases other with
  | bytes other =>
    cases hother with
    | bytes _ hother => rw [hunique other hother]
  | _ => exact halike.elim

theorem expressed_list {items : TypeRef} {inner : Json} (hitems : items.Expressed inner)
    (h : HasFields entries [("kind", some (.string "list")), ("items", some inner)]) :
    (TypeRef.list items).Expressed (.object entries) := by
  refine ⟨h.plain (by simp [plain_string, hitems.plain]), isTypeRef_object_iff.2 ?_,
    fun other hother ↦ ?_⟩
  · exact .inr (.inr (.inr (.inl ⟨h.hasKeys rfl rfl, h.valueAt rfl (isWord_iff.2 rfl),
      h.valueAt rfl hitems.accepted⟩)))
  · have halike : (TypeRef.list items).Alike other :=
      hother.alike (h.get? "$ref") rfl (h.get? "kind")
    cases other with
    | list other =>
      cases hother with
      | list _ hinner hother =>
        rw [h.get?] at hinner
        cases hinner
        rw [hitems.unique other hother]
    | _ => exact halike.elim

theorem expressed_map {key value : TypeRef} {innerKey innerValue : Json}
    (hkey : key.Expressed innerKey) (hvalue : value.Expressed innerValue)
    (h : HasFields entries
      [("kind", some (.string "map")), ("key", some innerKey), ("value", some innerValue)]) :
    (TypeRef.map key value).Expressed (.object entries) := by
  refine ⟨h.plain (by simp [plain_string, hkey.plain, hvalue.plain]), isTypeRef_object_iff.2 ?_,
    fun other hother ↦ ?_⟩
  · exact .inr (.inr (.inr (.inr (.inl ⟨h.hasKeys rfl rfl, h.valueAt rfl (isWord_iff.2 rfl),
      h.valueAt rfl hkey.accepted, h.valueAt rfl hvalue.accepted⟩))))
  · have halike : (TypeRef.map key value).Alike other :=
      hother.alike (h.get? "$ref") rfl (h.get? "kind")
    cases other with
    | map otherKey otherValue =>
      cases hother with
      | map _ hinnerKey hinnerValue hotherKey hotherValue =>
        rw [h.get?] at hinnerKey hinnerValue
        cases hinnerKey
        cases hinnerValue
        rw [hkey.unique otherKey hotherKey, hvalue.unique otherValue hotherValue]
    | _ => exact halike.elim

/-- The parts of a record, which has the same form as a reference and as a definition. -/
theorem record_of_hasFields {fields : List Field} {items : List Json}
    (hfields : List.Forall₂ Member.Form fields items)
    (hmembers : ∀ field ∈ fields, ∀ value, field.Form value → field.Expressed value)
    (h : HasFields entries [("kind", some (.string "record")), ("fields", some (.array items))]) :
    (object entries).Plain ∧ hasKeys ["kind", "fields"] [] entries = true ∧
      valueAt (isWord "record") "kind" entries = true ∧
      valueAt isFieldList "fields" entries = true ∧
      ∀ (others : List Field) (written : List Json),
      (object entries).get? "fields" = some (.array written) →
        List.Forall₂ Member.WrittenAs others written → others = fields := by
  obtain ⟨hitems, hunique⟩ := expresses_forall₂ hfields hmembers
  have hlist : isFieldList (.array items) = true := by
    rw [isFieldList, areFields_eq_all, List.all_eq_true]
    exact fun item hitem ↦ (hitems item hitem).2.1
  refine ⟨h.plain ?_, h.hasKeys rfl rfl, h.valueAt rfl (isWord_iff.2 rfl),
    h.valueAt rfl hlist, fun others written hwritten hothers ↦ ?_⟩
  · simp [plain_string, plain_array fun item hitem ↦ (hitems item hitem).1]
  · rw [h.get?] at hwritten
    cases hwritten
    exact hunique others hothers

/-- An inline record is expressed by its fields, if each form of each field expresses it. -/
theorem expressed_record {fields : List Field} {items : List Json}
    (hfields : List.Forall₂ Member.Form fields items)
    (hmembers : ∀ field ∈ fields, ∀ value, field.Form value → field.Expressed value)
    (h : HasFields entries [("kind", some (.string "record")), ("fields", some (.array items))]) :
    (TypeRef.record fields).Expressed (.object entries) := by
  obtain ⟨hplain, hkeys, hkind, hlist, hunique⟩ := record_of_hasFields hfields hmembers h
  refine ⟨hplain, isTypeRef_object_iff.2 (.inr (.inr (.inr (.inr (.inr ⟨hkeys, hkind, hlist⟩))))),
    fun other hother ↦ ?_⟩
  have halike : (TypeRef.record fields).Alike other :=
    hother.alike (h.get? "$ref") rfl (h.get? "kind")
  cases other with
  | record others =>
    cases hother with
    | record _ hwritten hothers => rw [hunique others _ hwritten hothers]
  | _ => exact halike.elim

end TypeRefs

theorem Schema.name_eq_nil {text : String} (h : text ≠ "") : Schema.name (.string text) = [] :=
  if_neg h

/-- Nothing is wrong with a table if its keys are not empty and its values pass. -/
theorem Schema.table_eq_nil {check : Schema.Check} {entries : List (String × Json)}
    (h : ∀ entry ∈ entries, entry.1 ≠ "" ∧ check entry.2 = []) :
    Schema.table check (.object entries) = [] := by
  rw [Schema.table, List.append_eq_nil_iff, List.flatMap_eq_nil_iff, List.flatMap_eq_nil_iff]
  exact ⟨fun entry hentry ↦ Schema.name_eq_nil (h entry hentry).1,
    fun entry hentry ↦ List.map_eq_nil_iff.2 (h entry hentry).2⟩

/-- Fields and parameters are expressed, if their types are. -/
theorem Member.Form.expressed {member : Member TypeRef} {value : Json} (h : member.Form value)
    (hname : member.name ≠ "")
    (htype : ∀ inner, member.type.Form inner → member.type.Expressed inner) :
    member.Expressed value := by
  obtain ⟨hinner, hnullable, h⟩ := h
  have htype := htype _ hinner
  obtain ⟨hflag, hunique⟩ := flag_of_flagWrittenAs hnullable
  refine ⟨h.plain ?_, ⟨?_, h.object_eq_nil rfl ?_⟩, fun other hother ↦ ?_⟩
  · simp only [List.forall_mem_cons, Option.some.injEq, forall_eq']
    exact ⟨plain_string _, htype.plain, fun inner hinner ↦ hflag inner hinner ▸ plain_bool _,
      List.forall_mem_nil _⟩
  · rw [isField]
    simp only [Bool.and_eq_true, isTypeRefAt_eq_valueAt]
    exact ⟨⟨⟨h.hasKeys rfl rfl, h.valueAt rfl (by simpa [isName] using hname)⟩,
      h.valueAt rfl htype.accepted⟩, h.valueIfAt rfl fun inner hinner ↦ hflag inner hinner ▸ rfl⟩
  · simp only [List.forall_mem_cons, Option.some.injEq, forall_eq']
    exact ⟨⟨_, rfl, Schema.name_eq_nil hname⟩, ⟨_, rfl, Schema.oneForm_eq_nil_iff.2 htype.accepted⟩,
      ⟨_, rfl, fun inner hinner ↦ hflag inner hinner ▸ rfl⟩, List.forall_mem_nil _⟩
  · obtain ⟨name, type, nullable⟩ := member
    obtain ⟨otherName, otherType, otherNullable⟩ := other
    cases hother with
    | intro hotherName hotherInner hotherType hotherNullable =>
      rw [h.get?] at hotherName hotherInner hotherNullable
      cases hotherName
      cases hotherInner
      obtain rfl : otherType = type := htype.unique otherType hotherType
      obtain rfl : otherNullable = nullable := hunique otherNullable hotherNullable
      rfl

/-- The names in a member are names in the list of members. -/
theorem mem_memberGivenNames {members : List (Member TypeRef)} {member : Member TypeRef}
    (h : member ∈ members) {name : String}
    (hname : name = member.name ∨ name ∈ member.type.givenNames) :
    name ∈ memberGivenNames members := by
  induction members with
  | nil => cases h
  | cons first members ih =>
    rw [memberGivenNames]
    simp only [List.cons_append, List.mem_cons, List.mem_append]
    rcases List.mem_cons.1 h with rfl | h
    · exact hname.imp_right .inl
    · exact .inr (.inr (ih h))

/-- Every form of a type reference without empty names expresses it. The induction is on the type,
since each form is made of forms of the types below. -/
theorem TypeRef.Form.expressed {type : TypeRef} {value : Json} (h : type.Form value)
    (hnames : "" ∉ type.givenNames) : type.Expressed value := by
  induction type generalizing value with
  | reference name =>
    rw [givenNames, List.mem_singleton] at hnames
    cases h with
    | reference h => exact expressed_reference (Ne.symm hnames) h
  | scalar kind =>
    cases h with
    | scalar h => exact expressed_scalar h
  | bytes length =>
    cases h with
    | bytes hsize hencoding h => exact expressed_bytes hsize hencoding h
  | list items ih =>
    rw [givenNames] at hnames
    cases h with
    | list hitems h => exact expressed_list (ih hitems hnames) h
  | map key val ihKey ihValue =>
    rw [givenNames, List.mem_append, not_or] at hnames
    cases h with
    | map hkey hvalue h => exact expressed_map (ihKey hkey hnames.1) (ihValue hvalue hnames.2) h
  | record fields ih =>
    rw [givenNames] at hnames
    cases h with
    | record hfields h =>
      refine expressed_record hfields (fun field hfield value hform ↦ ?_) h
      refine hform.expressed (fun hempty ↦ hnames (mem_memberGivenNames hfield (.inl hempty.symm)))
        fun inner hinner ↦ ?_
      exact ih field hfield hinner fun hmem ↦ hnames (mem_memberGivenNames hfield (.inr hmem))

/-- Fields and parameters without empty names are expressed by each of their forms. -/
theorem expressed_members {members : List (Member TypeRef)}
    (hnames : "" ∉ memberGivenNames members) :
    ∀ member ∈ members, ∀ value, member.Form value → member.Expressed value := by
  intro member hmember value hform
  refine hform.expressed (fun hempty ↦ hnames (mem_memberGivenNames hmember (.inl hempty.symm)))
    fun inner hinner ↦ ?_
  exact hinner.expressed fun hmem ↦ hnames (mem_memberGivenNames hmember (.inr hmem))

/-- The same of a payload, which may be left out. -/
theorem expressed_payload {payload : Option TypeRef} {value : Option Json}
    (h : Option.Rel TypeRef.Form payload value) (hnames : "" ∉ payloadNames payload) :
    (∀ inner, value = some inner → inner.Plain ∧ isTypeRef inner = true) ∧
      ∀ other, Option.Rel TypeRef.WrittenAs other value → other = payload :=
  expresses_option h fun type htype inner hinner ↦ hinner.expressed (by rwa [htype] at hnames)

/-! ### Definitions -/

theorem eq_of_rel_text {text other : Option String}
    (h : Option.Rel TextWrittenAs other (text.map .string)) : other = text := by
  rcases text with _ | text
  · cases h
    rfl
  · cases h with
    | some h => rw [string.inj h]

/-- A case is expressed with its code, which is a text of any kind. -/
theorem Case.Form.expressed {case : Case} {value : Json} (h : case.Form value)
    (hnames : "" ∉ case.name :: payloadNames case.payload) :
    Expresses Case.WrittenAs (isCase · = true) case value := by
  obtain ⟨hpayload, h⟩ := h
  rw [List.mem_cons, not_or] at hnames
  obtain ⟨hinner, hunique⟩ := expressed_payload hpayload hnames.2
  have hcode : ∀ inner, case.code.map string = some inner → ∃ text, inner = string text := by
    intro inner hinner
    obtain ⟨text, -, rfl⟩ := Option.map_eq_some_iff.1 hinner
    exact ⟨text, rfl⟩
  refine ⟨h.plain ?_, ?_, fun other hother ↦ ?_⟩
  · simp only [List.forall_mem_cons, Option.some.injEq, forall_eq']
    refine ⟨plain_string _, fun inner htext ↦ ?_, fun inner hsome ↦ (hinner inner hsome).1,
      List.forall_mem_nil _⟩
    obtain ⟨text, rfl⟩ := hcode inner htext
    exact plain_string text
  · rw [isCase]
    simp only [Bool.and_eq_true]
    refine ⟨⟨⟨h.hasKeys rfl rfl, h.valueAt rfl (by simpa [isName] using Ne.symm hnames.1)⟩,
      h.valueIfAt rfl fun inner htext ↦ ?_⟩,
      h.valueIfAt rfl fun inner hsome ↦ (hinner inner hsome).2⟩
    obtain ⟨text, rfl⟩ := hcode inner htext
    rfl
  · obtain ⟨name, code, payload⟩ := case
    obtain ⟨otherName, otherCode, otherPayload⟩ := other
    obtain ⟨hotherName, hotherCode, hotherPayload⟩ := hother
    rw [h.get?] at hotherName hotherCode hotherPayload
    cases hotherName
    obtain rfl : otherCode = code := eq_of_rel_text hotherCode
    obtain rfl : otherPayload = payload := hunique otherPayload hotherPayload
    rfl

/-- The forms of a type definition, one for each kind. -/
theorem isTypeDef_object_iff {entries : List (String × Json)} :
    isTypeDef (.object entries) = true ↔
      (hasKeys ["kind", "fields"] [] entries = true ∧
        valueAt (isWord "record") "kind" entries = true ∧
        valueAt isFieldList "fields" entries = true) ∨
      (hasKeys ["kind", "variants"] [] entries = true ∧
        valueAt (isWord "variant") "kind" entries = true ∧
        valueAt isCaseList "variants" entries = true) ∨
      isBytes entries = true ∨
      (hasKeys ["kind", "target"] [] entries = true ∧
        valueAt (isWord "alias") "kind" entries = true ∧
        valueAt isTypeRef "target" entries = true) := by
  rw [isTypeDef]
  simp only [Bool.or_eq_true, Bool.and_eq_true, or_assoc, and_assoc]

/-- Definitions that are written down by one value are of one kind. -/
theorem TypeDef.WrittenAs.kind_eq {other : TypeDef} {value : Json} (h : other.WrittenAs value)
    (typeDef : TypeDef) (hkind : value.get? "kind" = some (.string typeDef.kind)) :
    other.kind = typeDef.kind := by
  have hother : value.get? "kind" = some (.string other.kind) := by
    cases h with
    | record hkind _ _ => exact hkind
    | variant hkind _ _ => exact hkind
    | bytes hkind _ => exact hkind
    | aliasOf hkind _ _ => exact hkind
  rw [hkind] at hother
  exact (string.inj (Option.some.inj hother)).symm

/-- Every form of a definition without empty names expresses it. -/
theorem TypeDef.Form.expressed {typeDef : TypeDef} {value : Json} (h : typeDef.Form value)
    (hnames : "" ∉ typeDef.givenNames) :
    Expresses TypeDef.WrittenAs (isTypeDef · = true) typeDef value := by
  cases h with
  | @record fields value h =>
    cases h with
    | record hfields h =>
      obtain ⟨hplain, hkeys, hkind, hlist, hunique⟩ :=
        record_of_hasFields hfields (expressed_members hnames) h
      refine ⟨hplain, isTypeDef_object_iff.2 (.inl ⟨hkeys, hkind, hlist⟩), fun other hother ↦ ?_⟩
      have hsame := hother.kind_eq (.record fields) (h.get? "kind")
      cases hother with
      | record _ hwritten hothers => rw [hunique _ _ hwritten hothers]
      | _ => exact absurd hsame (by simp [kind])
  | @variant cases entries items hcases h =>
    have hparts : ∀ case ∈ cases,
        ∀ value, case.Form value → Expresses Case.WrittenAs (isCase · = true) case value :=
      fun case hcase value hform ↦
        hform.expressed fun hmem ↦ hnames (List.mem_flatMap.2 ⟨case, hcase, hmem⟩)
    obtain ⟨hitems, hunique⟩ := expresses_forall₂ hcases hparts
    have hlist : isCaseList (.array items) = true :=
      List.all_eq_true.2 fun item hitem ↦ (hitems item hitem).2
    refine ⟨h.plain ?_, isTypeDef_object_iff.2 (.inr (.inl ⟨h.hasKeys rfl rfl,
      h.valueAt rfl (isWord_iff.2 rfl), h.valueAt rfl hlist⟩)), fun other hother ↦ ?_⟩
    · simp [plain_string, plain_array fun item hitem ↦ (hitems item hitem).1]
    · have hsame := hother.kind_eq (.variant cases) (h.get? "kind")
      cases hother with
      | variant _ hwritten hothers =>
        rw [h.get?] at hwritten
        cases hwritten
        rw [hunique _ hothers]
      | _ => exact absurd hsame (by simp [kind])
  | @bytes length value h =>
    cases h with
    | bytes hsize hencoding h =>
      obtain ⟨hplain, hbytes, hunique⟩ := bytes_of_hasFields hsize hencoding h
      refine ⟨hplain, isTypeDef_object_iff.2 (.inr (.inr (.inl hbytes))), fun other hother ↦ ?_⟩
      have hsame := hother.kind_eq (.bytes length) (h.get? "kind")
      cases hother with
      | bytes _ hother => rw [hunique _ hother]
      | _ => exact absurd hsame (by simp [kind])
  | @aliasOf target entries inner htarget h =>
    have htarget := htarget.expressed hnames
    refine ⟨h.plain (by simp [plain_string, htarget.plain]),
      isTypeDef_object_iff.2 (.inr (.inr (.inr ⟨h.hasKeys rfl rfl, h.valueAt rfl (isWord_iff.2 rfl),
        h.valueAt rfl htarget.accepted⟩))), fun other hother ↦ ?_⟩
    have hsame := hother.kind_eq (.aliasOf target) (h.get? "kind")
    cases hother with
    | aliasOf _ hwritten hother =>
      rw [h.get?] at hwritten
      cases hwritten
      rw [htarget.unique _ hother]
    | _ => exact absurd hsame (by simp [kind])

/-! ### Methods and events -/

/-- The parts of an error or an event: an object with a text under one key and a payload. -/
theorem named_of_hasFields {entries : List (String × Json)} {key name : String}
    (hkey : key ≠ "payload") {payload : Option TypeRef} {value : Option Json}
    (hpayload : Option.Rel TypeRef.Form payload value) (hnames : "" ∉ name :: payloadNames payload)
    (h : HasFields entries [(key, some (.string name)), ("payload", value)]) :
    (object entries).Plain ∧
      Schema.object [key] [(key, Schema.name), ("payload", Schema.typeRef)] (.object entries) = [] ∧
      (∀ other, (object entries).get? key = some (.string other) → other = name) ∧
      ∀ other, Option.Rel TypeRef.WrittenAs other ((object entries).get? "payload") →
      other = payload := by
  rw [List.mem_cons, not_or] at hnames
  obtain ⟨hinner, hunique⟩ := expressed_payload hpayload hnames.2
  refine ⟨h.plain ?_, h.object_eq_nil (by simp [Table.find?]) ?_,
    fun other hother ↦ ?_, fun other hother ↦ ?_⟩
  · simp only [List.forall_mem_cons, Option.some.injEq, forall_eq']
    exact ⟨plain_string _, fun inner hsome ↦ (hinner inner hsome).1, List.forall_mem_nil _⟩
  · simp only [List.forall_mem_cons, Option.some.injEq, forall_eq']
    exact ⟨⟨_, if_pos rfl, Schema.name_eq_nil (Ne.symm hnames.1)⟩,
      ⟨Schema.typeRef, by simp [Table.find?, hkey],
      fun inner hsome ↦ Schema.oneForm_eq_nil_iff.2 (hinner inner hsome).2⟩, List.forall_mem_nil _⟩
  · rw [h.get?, Table.find?, if_pos rfl] at hother
    cases hother
    rfl
  · rw [h.get?, Table.find?, if_neg hkey] at hother
    exact hunique other hother

theorem MethodError.Form.expressed {error : MethodError} {value : Json} (h : error.Form value)
    (hnames : "" ∉ error.code :: payloadNames error.payload) :
    Expresses MethodError.WrittenAs (Schema.methodError · = []) error value := by
  obtain ⟨hpayload, h⟩ := h
  obtain ⟨hplain, haccepted, hcode, hunique⟩ := named_of_hasFields (by decide) hpayload hnames h
  refine ⟨hplain, haccepted, fun other hother ↦ ?_⟩
  obtain ⟨code, payload⟩ := error
  obtain ⟨otherCode, otherPayload⟩ := other
  obtain rfl : otherCode = code := hcode otherCode hother.code
  obtain rfl : otherPayload = payload := hunique otherPayload hother.payload
  rfl

theorem Event.Form.expressed {event : Event} {value : Json} (h : event.Form value)
    (hnames : "" ∉ event.name :: payloadNames event.payload) :
    Expresses Event.WrittenAs (Schema.event · = []) event value := by
  obtain ⟨hpayload, h⟩ := h
  obtain ⟨hplain, haccepted, hname, hunique⟩ := named_of_hasFields (by decide) hpayload hnames h
  refine ⟨hplain, haccepted, fun other hother ↦ ?_⟩
  obtain ⟨name, payload⟩ := event
  obtain ⟨otherName, otherPayload⟩ := other
  obtain rfl : otherName = name := hname otherName hother.name
  obtain rfl : otherPayload = payload := hunique otherPayload hother.payload
  rfl

/-- Errors are expressed by their list, or by none if there are no errors. -/
theorem expressed_errors {errors : List MethodError} {value : Option Json}
    (h : ErrorsForm errors value)
    (hnames : ∀ error ∈ errors, "" ∉ error.code :: payloadNames error.payload) :
    (∀ inner, value = some inner → inner.Plain ∧ Schema.list Schema.methodError inner = []) ∧
      ∀ others, (value = none ∧ others = [] ∨
        ∃ items, value = some (.array items) ∧ List.Forall₂ MethodError.WrittenAs others items) →
        others = errors := by
  rcases h with ⟨rfl, rfl⟩ | ⟨items, rfl, hitems⟩
  · refine ⟨nofun, fun others hothers ↦ ?_⟩
    rcases hothers with ⟨-, rfl⟩ | ⟨items, hsome, -⟩
    · rfl
    · cases hsome
  · obtain ⟨hparts, hunique⟩ :=
      expresses_forall₂ hitems fun error herror value hform ↦ hform.expressed (hnames error herror)
    refine ⟨fun inner hinner ↦ ?_, fun others hothers ↦ ?_⟩
    · cases hinner
      exact ⟨plain_array fun item hitem ↦ (hparts item hitem).1,
        Schema.items_eq_nil_iff.2 fun item hitem ↦ (hparts item hitem).2⟩
    · rcases hothers with ⟨hnone, -⟩ | ⟨written, hsome, hothers⟩
      · cases hnone
      · cases hsome
        exact hunique others hothers

/-- Every form of a method without empty names expresses it. -/
theorem Method.Form.expressed {method : Method} {value : Json} (h : method.Form value)
    (hnames : "" ∉ method.givenNames) :
    Expresses Method.WrittenAs (Schema.method · = []) method value := by
  obtain ⟨hparams, hreturns, hnullable, herrors, h⟩ := h
  simp only [Method.givenNames, List.cons_append, List.mem_cons, List.mem_append, not_or,
    List.mem_flatMap, not_exists, not_and] at hnames
  obtain ⟨hname, ⟨hparamNames, hreturnNames⟩, herrorNames⟩ := hnames
  obtain ⟨hparamItems, hparamsUnique⟩ := expresses_forall₂ hparams (expressed_members hparamNames)
  obtain ⟨hreturn, hreturnUnique⟩ := expressed_payload hreturns hreturnNames
  obtain ⟨hflag, hflagUnique⟩ := flag_of_flagWrittenAs hnullable
  obtain ⟨herror, herrorsUnique⟩ := expressed_errors herrors (by simpa using herrorNames)
  refine ⟨h.plain ?_, h.object_eq_nil rfl ?_, fun other hother ↦ ?_⟩
  · simp only [List.forall_mem_cons, Option.some.injEq, forall_eq']
    exact ⟨plain_string _, plain_array fun item hitem ↦ (hparamItems item hitem).1,
      fun inner hsome ↦ (hreturn inner hsome).1, fun inner hsome ↦ hflag inner hsome ▸ plain_bool _,
      fun inner hsome ↦ (herror inner hsome).1, List.forall_mem_nil _⟩
  · simp only [List.forall_mem_cons, Option.some.injEq, forall_eq']
    exact ⟨⟨_, rfl, Schema.name_eq_nil (Ne.symm hname)⟩,
      ⟨_, rfl, Schema.items_eq_nil_iff.2 fun item hitem ↦ (hparamItems item hitem).2.2⟩,
      ⟨_, rfl, fun inner hsome ↦ Schema.oneForm_eq_nil_iff.2 (hreturn inner hsome).2⟩,
      ⟨_, rfl, fun inner hsome ↦ hflag inner hsome ▸ rfl⟩,
      ⟨_, rfl, fun inner hsome ↦ (herror inner hsome).2⟩, List.forall_mem_nil _⟩
  · obtain ⟨name, params, returns, returnsNullable, errors⟩ := method
    obtain ⟨otherName, otherParams, otherReturns, otherNullable, otherErrors⟩ := other
    obtain ⟨hotherName, ⟨items, hitems, hotherParams⟩, hotherReturns, hotherNullable,
        hotherErrors⟩ := hother
    rw [h.get?] at hotherName hitems hotherReturns hotherNullable hotherErrors
    cases hotherName
    cases hitems
    obtain rfl : otherParams = params := hparamsUnique otherParams hotherParams
    obtain rfl : otherReturns = returns := hreturnUnique otherReturns hotherReturns
    obtain rfl : otherNullable = returnsNullable := hflagUnique otherNullable hotherNullable
    obtain rfl : otherErrors = errors := herrorsUnique otherErrors hotherErrors
    rfl

/-! ### Documents -/

/-- The type table, entry by entry. -/
theorem expressed_types {types : List (String × TypeDef)} {written : List (String × Json)}
    (h : List.Forall₂ (fun entry written ↦ entry.1 = written.1 ∧ entry.2.Form written.2)
      types written)
    (hnames : "" ∉ types.flatMap fun entry ↦ entry.1 :: entry.2.givenNames) :
    Table.names written = Table.names types ∧
      (∀ entry ∈ written, entry.1 ≠ "" ∧ entry.2.Plain ∧ isTypeDef entry.2 = true) ∧
      ∀ others, List.Forall₂ EntryWrittenAs others written → others = types := by
  induction h with
  | nil =>
    exact ⟨rfl, List.forall_mem_nil _, fun others hothers ↦ List.forall₂_nil_right_iff.1 hothers⟩
  | @cons entry value types written hentry _ ih =>
    rw [List.flatMap_cons, List.cons_append, List.mem_cons, List.mem_append, not_or,
      not_or] at hnames
    obtain ⟨hname, hdefNames, hrestNames⟩ := hnames
    obtain ⟨hrestKeys, hrest, hunique⟩ := ih hrestNames
    have hdef := hentry.2.expressed hdefNames
    refine ⟨congrArg₂ List.cons hentry.1.symm hrestKeys, List.forall_mem_cons.2 ⟨?_, hrest⟩,
      fun others hothers ↦ ?_⟩
    · exact ⟨hentry.1 ▸ Ne.symm hname, hdef.plain, hdef.accepted⟩
    · obtain ⟨⟨otherName, otherDef⟩, others, ⟨hother, hotherDef⟩, hrestWritten, rfl⟩ :=
        List.forall₂_cons_right_iff.1 hothers
      obtain ⟨name, typeDef⟩ := entry
      obtain rfl : otherName = name := hother.trans hentry.1.symm
      obtain rfl : otherDef = typeDef := hdef.unique otherDef hotherDef
      rw [hunique others hrestWritten]

/-- Every form of a document expresses it, if its version is supported, its types have distinct
names and no name is empty. -/
theorem Document.Form.expressed {document : Document} {value : Json} (h : document.Form value)
    (hversion : document.version = Manifest.supportedVersion)
    (hnd : (Table.names document.types).Nodup) (hnames : "" ∉ document.givenNames) :
    Expresses Document.WrittenAs (Schema.manifest · = []) document value := by
  obtain ⟨htypes, hmethods, hevents, h⟩ := h
  rw [Document.givenNames, List.mem_append, List.mem_append, not_or, not_or] at hnames
  obtain ⟨⟨htypeNames, hmethodNames⟩, heventNames⟩ := hnames
  obtain ⟨hkeys, hentries, htypesUnique⟩ := expressed_types htypes htypeNames
  obtain ⟨hmethodItems, hmethodsUnique⟩ :=
    expresses_forall₂ hmethods fun method hmethod value hform ↦
    hform.expressed fun hmem ↦ hmethodNames (List.mem_flatMap.2 ⟨method, hmethod, hmem⟩)
  obtain ⟨heventItems, heventsUnique⟩ := expresses_forall₂ hevents fun event hevent value hform ↦
    hform.expressed fun hmem ↦ heventNames (List.mem_flatMap.2 ⟨event, hevent, hmem⟩)
  refine ⟨h.plain ?_, h.object_eq_nil rfl ?_, fun other hother ↦ ?_⟩
  · simp only [List.forall_mem_cons, Option.some.injEq, forall_eq']
    exact ⟨plain_string _, plain_object (hkeys ▸ hnd) fun entry hentry ↦
      (hentries entry hentry).2.1,
      plain_array fun item hitem ↦ (hmethodItems item hitem).1,
      plain_array fun item hitem ↦ (heventItems item hitem).1, List.forall_mem_nil _⟩
  · simp only [List.forall_mem_cons, Option.some.injEq, forall_eq']
    exact ⟨⟨_, rfl, Schema.word_eq_nil_iff.2 (congrArg string hversion)⟩,
      ⟨_, rfl, Schema.table_eq_nil fun entry hentry ↦
        ⟨(hentries entry hentry).1, Schema.oneForm_eq_nil_iff.2 (hentries entry hentry).2.2⟩⟩,
      ⟨_, rfl, Schema.items_eq_nil_iff.2 fun item hitem ↦ (hmethodItems item hitem).2⟩,
      ⟨_, rfl, Schema.items_eq_nil_iff.2 fun item hitem ↦ (heventItems item hitem).2⟩,
      List.forall_mem_nil _⟩
  · obtain ⟨version, types, methods, events⟩ := document
    obtain ⟨otherVersion, otherTypes, otherMethods, otherEvents⟩ := other
    obtain ⟨hotherVersion, ⟨written, hwritten, hotherTypes⟩,
        ⟨methodItems, hmethodsWritten, hotherMethods⟩,
      ⟨eventItems, heventsWritten, hotherEvents⟩⟩ := hother
    rw [h.get?] at hotherVersion hwritten hmethodsWritten heventsWritten
    cases hotherVersion
    cases hwritten
    cases hmethodsWritten
    cases heventsWritten
    obtain rfl : otherTypes = types := htypesUnique otherTypes hotherTypes
    obtain rfl : otherMethods = methods := hmethodsUnique otherMethods hotherMethods
    obtain rfl : otherEvents = events := heventsUnique otherEvents hotherEvents
    rfl

/-- Every document of the version that is understood, with distinct type names and without empty
names, has a manifest form: it is printed with all that may be left out, and without it. Every
manifest form of it, whatever is left out and in whatever order its keys stand, satisfies the
format, and is read as this document. -/
theorem Document.forms_read_back (document : Document) (hversion : document.version = "wasm-abi/1")
    (hnd : (Table.names document.types).Nodup) (hnames : "" ∉ document.givenNames) :
    (∀ full, document.Form (document.toJson full)) ∧
      ∀ value, document.Form value →
        Schema.violations value = [] ∧ readFromJson readDocument value = .ok document := by
  refine ⟨fun full ↦ document.form_toJson full, fun value hform ↦ ?_⟩
  obtain ⟨hplain, haccepted, hunique⟩ := hform.expressed hversion hnd hnames
  obtain ⟨found, hfound, hwritten⟩ :=
    (readsAs_document hplain.wellFormed haccepted).gives hplain.noDoubleSize
  refine ⟨List.map_eq_nil_iff.2 haccepted, ?_⟩
  rw [← hunique found hwritten]
  exact toOption_eq_some_iff.1 hfound

/-- A document with a record inside of a definition and as one, byte sequences of any and of a fixed
length, an empty code, and an alias that stands for itself. -/
def nursery : Document where
  version := "wasm-abi/1"
  types := [
    ("Pot", .record [⟨"label", .bytes (.fixed ⟨16, by decide⟩), true⟩,
      ⟨"soil", .map (.scalar .string) (.list (.record [⟨"ph", .scalar .f32, false⟩])), false⟩]),
    ("Plant", .variant [⟨"seed", some "", none⟩, ⟨"potted", none, some (.reference "Pot")⟩]),
    ("Photo", .bytes .any),
    ("Loop", .aliasOf (.reference "Loop"))]
  methods := [
    ⟨"water", [⟨"plants", .list (.reference "Plant"), false⟩], some (.scalar .u32), true,
      [⟨"DRY", some (.reference "Loop")⟩, ⟨"GONE", none⟩]⟩,
    ⟨"rest", [], none, false, []⟩]
  events := [⟨"Sprouted", some (.reference "Plant")⟩, ⟨"Frost", none⟩]

theorem Document.forms_read_back_nursery :
    Schema.violations (nursery.toJson true) = [] ∧
      readFromJson readDocument (nursery.toJson true) = .ok nursery ∧
      Schema.violations (nursery.toJson false) = [] ∧
      readFromJson readDocument (nursery.toJson false) = .ok nursery := by
  obtain ⟨hforms, hread⟩ := Document.forms_read_back nursery rfl (by decide) (by decide)
  obtain ⟨htrue, hreadTrue⟩ := hread _ (hforms true)
  obtain ⟨hfalse, hreadFalse⟩ := hread _ (hforms false)
  exact ⟨htrue, hreadTrue, hfalse, hreadFalse⟩

end AbiBindings
