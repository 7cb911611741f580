import AbiBindings.Proofs.Manifest.FormatAgreement
import Mathlib.Data.List.Count

/-!
# Types have one written form

The format lists the forms of a type reference, and those of a type definition, and asks that a
value have exactly one of them. A form says which keys there must be, which others there may be, and
what may stand under each. Byte sequences of any length and of a fixed length are two forms.

The tests of the grammar ask for some form (`isTypeRef_object_eq_any`, `isTypeDef_object_eq_any`).
That is the same, since the forms exclude each other: of any two, one requires a key that the other
does not know, except for scalars and byte sequences of any length, which differ in their kind.
-/

namespace AbiBindings.Grammar

open Json

variable {entries : List (String × Json)}

/-! ### Forms -/

/-- The form of an object: tests for the values under the keys that it has and that it may have. -/
structure Form where
  required : List (String × (Json → Bool))
  optional : List (String × (Json → Bool))

namespace Form

/-- The keys that an object of the form may have. -/
def keys (form : Form) : List String :=
  Table.names form.required ++ Table.names form.optional

/-- The object has the form. -/
def holds (form : Form) (entries : List (String × Json)) : Bool :=
  hasKeys (Table.names form.required) (Table.names form.optional) entries &&
    form.required.all (fun (key, test) ↦ valueAt test key entries) &&
    form.optional.all fun (key, test) ↦ valueIfAt test key entries

/-- No object has both forms. -/
def Excludes (form other : Form) : Prop :=
  ∀ entries, form.holds entries = true → other.holds entries = false

/-- The form requires a key that the other does not know. -/
def asksMore (form other : Form) : Bool :=
  (Table.names form.required).any (!other.keys.contains ·)

/-- One of the forms requires a key that the other does not know. -/
def apart (form other : Form) : Bool :=
  form.asksMore other || other.asksMore form

end Form

/-- The required keys are there, and no others than these and the optional ones. -/
theorem hasKeys_iff {required optional : List String} :
    hasKeys required optional entries = true ↔
      (∀ key ∈ required, key ∈ Table.names entries) ∧
        ∀ key ∈ Table.names entries, key ∈ required ++ optional := by
  constructor
  · intro h
    refine ⟨fun key hkey ↦ ?_, mem_of_hasKeys h⟩
    exact Table.contains_iff.1 (List.all_eq_true.1 (Bool.and_eq_true_iff.1 h).1 key hkey)
  · rintro ⟨hrequired, hknown⟩
    refine Bool.and_eq_true_iff.2 ⟨List.all_eq_true.2 fun key hkey ↦ ?_,
      List.all_eq_true.2 fun (key, value) hentry ↦ ?_⟩
    · exact Table.contains_iff.2 (hrequired key hkey)
    · simpa using hknown key (Table.mem_names_iff.2 ⟨value, hentry⟩)

namespace Form

theorem holds_iff {form : Form} :
    form.holds entries = true ↔
      ((∀ key ∈ Table.names form.required, key ∈ Table.names entries) ∧
        ∀ key ∈ Table.names entries, key ∈ form.keys) ∧
      (∀ part ∈ form.required, valueAt part.2 part.1 entries = true) ∧
        ∀ part ∈ form.optional, valueIfAt part.2 part.1 entries = true := by
  rw [holds, Bool.and_assoc, Bool.and_eq_true, Bool.and_eq_true, hasKeys_iff, List.all_eq_true,
    List.all_eq_true]
  rfl

/-- An object of both forms would have a key that one of them does not know. -/
theorem not_both_of_asksMore {form other : Form} (h : form.asksMore other = true)
    (hform : form.holds entries = true) (hother : other.holds entries = true) : False := by
  obtain ⟨key, hkey, hunknown⟩ := List.any_eq_true.1 h
  have hknown := (holds_iff.1 hother).1.2 key ((holds_iff.1 hform).1.1 key hkey)
  rw [List.contains_iff_mem.2 hknown] at hunknown
  cases hunknown

theorem excludes_of_apart {form other : Form} (h : form.apart other = true) :
    form.Excludes other := by
  intro entries hform
  rw [← Bool.not_eq_true]
  intro hother
  obtain h | h := Bool.or_eq_true_iff.1 h
  · exact not_both_of_asksMore h hform hother
  · exact not_both_of_asksMore h hother hform

/-- Of forms that exclude each other, an object that has some has exactly one. -/
theorem countP_eq_one_iff {forms : List Form} (h : forms.Pairwise Excludes) :
    forms.countP (·.holds entries) = 1 ↔ forms.any (·.holds entries) = true := by
  induction forms with
  | nil => simp
  | cons form forms ih =>
    obtain ⟨hform, hforms⟩ := List.pairwise_cons.1 h
    by_cases hholds : form.holds entries = true
    · have hnone : forms.countP (·.holds entries) = 0 :=
        List.countP_eq_zero.2 fun other hother ↦
          Bool.not_eq_true _ ▸ hform other hother entries hholds
      simp [hholds, hnone]
    · simp [hholds, ih hforms]

end Form

/-! ### The forms of types -/

/-- A `$ref`. -/
def referenceForm : Form := ⟨[("$ref", isName)], []⟩

/-- The word for the kind of a scalar. -/
def isScalarWord (value : Json) : Bool :=
  ScalarKind.all.any fun kind ↦ isWord kind.tag value

def scalarForm : Form := ⟨[("kind", isScalarWord)], []⟩

def anyBytesForm : Form := ⟨[("kind", isWord "bytes")], [("encoding", isWord "hex")]⟩

def fixedBytesForm : Form :=
  ⟨[("kind", isWord "bytes"), ("size", isByteCount)], [("encoding", isWord "hex")]⟩

def listForm : Form := ⟨[("kind", isWord "list"), ("items", isTypeRef)], []⟩

def mapForm : Form :=
  ⟨[("kind", isWord "map"), ("key", isTypeRef), ("value", isTypeRef)], []⟩

def recordForm : Form := ⟨[("kind", isWord "record"), ("fields", isFieldList)], []⟩

def variantForm : Form := ⟨[("kind", isWord "variant"), ("variants", isCaseList)], []⟩

def aliasForm : Form := ⟨[("kind", isWord "alias"), ("target", isTypeRef)], []⟩

/-- The forms of a type reference. -/
def typeRefForms : List Form :=
  [referenceForm, scalarForm, anyBytesForm, fixedBytesForm, listForm, mapForm, recordForm]

/-- The forms of a type definition. -/
def typeDefForms : List Form :=
  [recordForm, variantForm, anyBytesForm, fixedBytesForm, aliasForm]

/-- A scalar is told by one test of its kind instead of one for each word. -/
theorem isScalar_eq_holds (entries : List (String × Json)) :
    isScalar entries = scalarForm.holds entries := by
  have hkind : valueAt isScalarWord "kind" entries =
      ScalarKind.all.any fun kind ↦ valueAt (isWord kind.tag) "kind" entries := by
    simp only [valueAt]
    cases Table.find? "kind" entries with
    | none => rfl
    | some value => rfl
  simp [isScalar, Form.holds, scalarForm, Table.names, hkind]

/-- A byte sequence has any length or a fixed one. -/
theorem isBytes_eq_or (entries : List (String × Json)) :
    isBytes entries = (anyBytesForm.holds entries || fixedBytesForm.holds entries) := by
  -- a size is a key that the first form does not know and the second requires
  cases hsize : Table.find? "size" entries with
  | none =>
    have habsent : "size" ∉ Table.names entries := by
      rw [← Table.find?_isSome_iff, hsize]
      exact Bool.false_ne_true
    have hany : hasKeys ["kind"] ["size", "encoding"] entries =
        hasKeys ["kind"] ["encoding"] entries := by
      rw [Bool.eq_iff_iff, hasKeys_iff, hasKeys_iff]
      refine and_congr_right fun _ ↦ forall₂_congr fun key hkey ↦ ?_
      have hne : key ≠ "size" := ne_of_mem_of_not_mem hkey habsent
      simp [hne]
    have hfixed : hasKeys ["kind", "size"] ["encoding"] entries = false := by
      rw [← Bool.not_eq_true, hasKeys_iff]
      exact fun h ↦ habsent (h.1 "size" (by decide))
    simp [isBytes, Form.holds, anyBytesForm, fixedBytesForm, Table.names, valueIfAt, hsize, hany,
      hfixed]
  | some value =>
    have hpresent : "size" ∈ Table.names entries :=
      Table.mem_names_iff.2 ⟨value, Table.mem_of_find?_eq_some hsize⟩
    have hany : hasKeys ["kind"] ["encoding"] entries = false := by
      rw [← Bool.not_eq_true, hasKeys_iff]
      intro h
      have hknown := h.2 "size" hpresent
      revert hknown
      decide
    have hfixed : hasKeys ["kind"] ["size", "encoding"] entries =
        hasKeys ["kind", "size"] ["encoding"] entries := by
      rw [Bool.eq_iff_iff, hasKeys_iff, hasKeys_iff]
      simp [hpresent]
    simp [isBytes, Form.holds, anyBytesForm, fixedBytesForm, Table.names, valueIfAt, valueAt, hsize,
      hany, hfixed, Bool.and_assoc]

/-- A type reference has some of its forms. -/
theorem isTypeRef_object_eq_any (entries : List (String × Json)) :
    isTypeRef (.object entries) = typeRefForms.any (·.holds entries) := by
  simp only [isTypeRef, isReference, isScalar_eq_holds, isBytes_eq_or, isTypeRefAt_eq_valueAt,
    isFieldListAt_eq_valueAt, typeRefForms, referenceForm, listForm, mapForm, recordForm,
    List.any_cons, List.any_nil, Form.holds, Table.names, List.map_cons, List.map_nil,
    List.all_cons, List.all_nil, Bool.and_true, Bool.or_false, Bool.or_assoc, Bool.and_assoc]

/-- A type definition has some of its forms. -/
theorem isTypeDef_object_eq_any (entries : List (String × Json)) :
    isTypeDef (.object entries) = typeDefForms.any (·.holds entries) := by
  simp only [isTypeDef, isBytes_eq_or, typeDefForms, recordForm, variantForm, aliasForm,
    List.any_cons, List.any_nil, Form.holds, Table.names, List.map_cons, List.map_nil,
    List.all_cons, List.all_nil, Bool.and_true, Bool.or_false, Bool.or_assoc, Bool.and_assoc]

/-- These forms have the same keys, but `bytes` is not the word for a scalar. -/
theorem scalarForm_excludes_anyBytesForm : scalarForm.Excludes anyBytesForm := by
  intro entries hscalar
  rw [← Bool.not_eq_true]
  intro hbytes
  obtain ⟨value, hfind, hword⟩ :=
    valueAt_iff.1 ((Form.holds_iff.1 hscalar).2.1 _ (List.mem_singleton_self _))
  obtain ⟨bytes, hfound, hbytes⟩ :=
    valueAt_iff.1 ((Form.holds_iff.1 hbytes).2.1 _ (List.mem_singleton_self _))
  cases hfind.symm.trans hfound
  rw [isWord_iff.1 hbytes] at hword
  revert hword
  decide

/-- No value is a type reference in two ways. -/
theorem pairwise_typeRefForms : typeRefForms.Pairwise Form.Excludes := by
  -- all but one pair of forms are told apart by a key
  rw [typeRefForms, List.pairwise_cons, List.pairwise_cons]
  refine ⟨fun other hother ↦ ?_, List.forall_mem_cons.2
    ⟨scalarForm_excludes_anyBytesForm, fun other hother ↦ ?_⟩, ?_⟩
  · exact Form.excludes_of_apart (List.all_eq_true.1 (by decide) other hother)
  · exact Form.excludes_of_apart (List.all_eq_true.1 (by decide) other hother)
  · exact List.Pairwise.imp Form.excludes_of_apart (by decide)

/-- No value is a type definition in two ways. -/
theorem pairwise_typeDefForms : typeDefForms.Pairwise Form.Excludes :=
  List.Pairwise.imp Form.excludes_of_apart (by decide)

/-! ### Exactly one form -/

/-- A type reference is an object that has exactly one of the forms. -/
theorem isTypeRef_iff {value : Json} :
    isTypeRef value = true ↔
      ∃ entries, value = .object entries ∧ typeRefForms.countP (·.holds entries) = 1 := by
  cases value with
  | object entries =>
    rw [isTypeRef_object_eq_any, ← Form.countP_eq_one_iff pairwise_typeRefForms]
    simp
  | _ => simp [isTypeRef]

/-- A type definition is an object that has exactly one of the forms. -/
theorem isTypeDef_iff {value : Json} :
    isTypeDef value = true ↔
      ∃ entries, value = .object entries ∧ typeDefForms.countP (·.holds entries) = 1 := by
  cases value with
  | object entries =>
    rw [isTypeDef_object_eq_any, ← Form.countP_eq_one_iff pairwise_typeDefForms]
    simp
  | _ => simp [isTypeDef]

end AbiBindings.Grammar

namespace AbiBindings.Schema

open Grammar

/-- Nothing is wrong with a value for a type reference if it has exactly one of the forms. -/
theorem typeRef_eq_nil_iff {value : Json} :
    typeRef value = [] ↔
      ∃ entries, value = .object entries ∧ typeRefForms.countP (·.holds entries) = 1 :=
  oneForm_eq_nil_iff.trans isTypeRef_iff

theorem oneForm_isTypeDef_eq_nil_iff {value : Json} :
    oneForm isTypeDef value = [] ↔
      ∃ entries, value = .object entries ∧ typeDefForms.countP (·.holds entries) = 1 :=
  oneForm_eq_nil_iff.trans isTypeDef_iff

end AbiBindings.Schema
