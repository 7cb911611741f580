import AbiBindings.Proofs.Manifest.Occurrences
import AbiBindings.Proofs.Manifest.WrittenForm

/-!
# Equality of values and documents

Whether two JSON values or two documents are the same can be computed, so what a fixed text is read
as is found by evaluation. Values and type references hold lists of their own kind; for these the
comparison is written out and decides equality (`Json.same_iff`, `TypeRef.same_iff`).
-/

namespace AbiBindings

/-! ### Values -/

mutual

/-- The values are the same. -/
def Json.same : Json → Json → Bool
  | .null, .null => true
  | .bool flag, .bool other => flag = other
  | .number n, .number other => n = other
  | .string text, .string other => text = other
  | .array items, .array others => Json.sameItems items others
  | .object entries, .object others => Json.sameEntries entries others
  | _, _ => false

/-- The lists have the same values. -/
def Json.sameItems : List Json → List Json → Bool
  | [], [] => true
  | item :: items, other :: others => Json.same item other && Json.sameItems items others
  | _, _ => false

/-- The objects have the same entries in the same order. -/
def Json.sameEntries : List (String × Json) → List (String × Json) → Bool
  | [], [] => true
  | (key, value) :: entries, (other, value') :: others =>
    key = other && Json.same value value' && Json.sameEntries entries others
  | _, _ => false

end

namespace Json

/-- Lists are compared item by item. -/
theorem sameItems_iff {items others : List Json}
    (h : ∀ item ∈ items, ∀ other, item.same other = true ↔ item = other) :
    sameItems items others = true ↔ items = others := by
  induction items generalizing others with
  | nil => cases others <;> simp [sameItems]
  | cons item items ih =>
    obtain ⟨hitem, hitems⟩ := List.forall_mem_cons.1 h
    cases others with
    | nil => simp [sameItems]
    | cons other others =>
      rw [sameItems, Bool.and_eq_true, hitem, ih hitems, List.cons.injEq]

/-- Objects are compared entry by entry, in order. -/
theorem sameEntries_iff {entries others : List (String × Json)}
    (h : ∀ entry ∈ entries, ∀ other, entry.2.same other = true ↔ entry.2 = other) :
    sameEntries entries others = true ↔ entries = others := by
  induction entries generalizing others with
  | nil => cases others <;> simp [sameEntries]
  | cons entry entries ih =>
    obtain ⟨hentry, hentries⟩ := List.forall_mem_cons.1 h
    cases others with
    | nil => simp [sameEntries]
    | cons other others =>
      rw [sameEntries, Bool.and_eq_true, Bool.and_eq_true, decide_eq_true_eq, hentry,
        ih hentries, List.cons.injEq, Prod.ext_iff]

theorem same_iff {value other : Json} : value.same other = true ↔ value = other := by
  induction value generalizing other with
  | null => cases other <;> simp [same]
  | bool flag => cases other <;> simp [same]
  | number n => cases other <;> simp [same]
  | string text => cases other <;> simp [same]
  | array items ih =>
    cases other with
    | array others => rw [same, sameItems_iff fun item hitem _ ↦ ih item hitem, array.injEq]
    | _ => simp [same]
  | object entries ih =>
    cases other with
    | object others =>
      rw [same, sameEntries_iff fun entry hentry _ ↦ ih entry hentry, object.injEq]
    | _ => simp [same]

instance : DecidableEq Json := fun _ _ ↦ decidable_of_iff _ same_iff

end Json

/-! ### Types -/

mutual

/-- The type references are the same. -/
def TypeRef.same : TypeRef → TypeRef → Bool
  | .reference name, .reference other => name = other
  | .scalar kind, .scalar other => kind = other
  | .bytes length, .bytes other => length = other
  | .list items, .list others => TypeRef.same items others
  | .map key value, .map key' value' => TypeRef.same key key' && TypeRef.same value value'
  | .record fields, .record others => TypeRef.sameFields fields others
  | _, _ => false

/-- The fields have the same names and types, in the same order, and allow for null alike. -/
def TypeRef.sameFields : List (Member TypeRef) → List (Member TypeRef) → Bool
  | [], [] => true
  | ⟨name, type, nullable⟩ :: fields, ⟨name', type', nullable'⟩ :: fields' =>
    name = name' && TypeRef.same type type' && nullable = nullable' &&
      TypeRef.sameFields fields fields'
  | _, _ => false

end

namespace TypeRef

/-- Fields are compared one by one, in order. -/
theorem sameFields_iff {fields others : List Field}
    (h : ∀ field ∈ fields, ∀ other, field.type.same other = true ↔ field.type = other) :
    sameFields fields others = true ↔ fields = others := by
  induction fields generalizing others with
  | nil => cases others <;> simp [sameFields]
  | cons field fields ih =>
    obtain ⟨hfield, hfields⟩ := List.forall_mem_cons.1 h
    cases others with
    | nil => simp [sameFields]
    | cons other others =>
      obtain ⟨name, type, nullable⟩ := field
      obtain ⟨name', type', nullable'⟩ := other
      simp only [sameFields, Bool.and_eq_true, decide_eq_true_eq, hfield, ih hfields,
        List.cons.injEq, Member.mk.injEq, and_assoc]

theorem same_iff {type other : TypeRef} : type.same other = true ↔ type = other := by
  induction type generalizing other with
  | reference name => cases other <;> simp [same]
  | scalar kind => cases other <;> simp [same]
  | bytes length => cases other <;> simp [same]
  | list items ih =>
    cases other with
    | list others => rw [same, ih, list.injEq]
    | _ => simp [same]
  | map key value ihKey ihValue =>
    cases other with
    | map key' value' => rw [same, Bool.and_eq_true, ihKey, ihValue, map.injEq]
    | _ => simp [same]
  | record fields ih =>
    cases other with
    | record others =>
      rw [same, sameFields_iff fun field hfield _ ↦ ih field hfield, record.injEq]
    | _ => simp [same]

instance : DecidableEq TypeRef := fun _ _ ↦ decidable_of_iff _ same_iff

end TypeRef

/-! ### Documents -/

deriving instance DecidableEq for Member, Case, TypeDef, MethodError, Method, Event, Document,
  Manifest

end AbiBindings
