import AbiBindings.Manifest.Schema
import AbiBindings.Proofs.Manifest.TypedReading

/-!
# The format and the reading of manifests agree

A manifest is described twice: `Schema.violations` says what is wrong with a value, and
`readDocument` makes a document of it. `format_agrees_with_reading` says how the two fit together. A
value in which nothing is wrong is read, and the document is what the value writes down, with one
exception: the format counts a double without a fraction as a whole number, and the reading does
not.

What the format says of an object is kept in `Schema.Accepted`: which keys there are, and that each
value passes its check. From there each part of a manifest is read key by key, as for types.
-/

namespace AbiBindings

open Json Grammar

variable {α : Type}

/-! ### What the checks of the format say -/

namespace Schema

/-- A value in which nothing is wrong as a name is a text. -/
theorem exists_text_of_name {value : Json} (h : name value = []) :
    ∃ text, value = .string text := by
  cases value with
  | string text => exact ⟨text, rfl⟩
  | _ => cases h

theorem isFlag_of_flag {value : Json} (h : flag value = []) : isFlag value = true := by
  cases value with
  | bool flag => rfl
  | _ => cases h

/-- A value with several forms is right or wrong as a whole. -/
theorem oneForm_eq_nil_iff {test : Json → Bool} {value : Json} :
    oneForm test value = [] ↔ test value = true := by
  rw [oneForm]
  split
  · rename_i htest
    exact iff_of_true rfl htest
  · rename_i htest
    exact iff_of_false nofun htest

/-- Only one value passes for a given word. -/
theorem word_eq_nil_iff {expected : String} {value : Json} :
    word expected value = [] ↔ value = .string expected := by
  rw [word, ← isWord_iff]
  split
  · rename_i hword
    exact iff_of_true rfl hword
  · rename_i hword
    exact iff_of_false nofun hword

/-- Nothing is wrong with items if nothing is wrong with any of them, wherever the count starts. -/
theorem items_eq_nil_iff {check : Check} {i : Nat} {values : List Json} :
    items check i values = [] ↔ ∀ value ∈ values, check value = [] := by
  induction values generalizing i with
  | nil => simp [items]
  | cons value values ih =>
    rw [items, List.append_eq_nil_iff, List.map_eq_nil_iff, ih, List.forall_mem_cons]

theorem exists_items_of_list {check : Check} {value : Json} (h : list check value = []) :
    ∃ values, value = .array values ∧ ∀ item ∈ values, check item = [] := by
  cases value with
  | array values => exact ⟨values, rfl, items_eq_nil_iff.1 h⟩
  | _ => cases h

/-- The entries of an object in which nothing is wrong. -/
structure Accepted (required : List String) (members : List (String × Check))
    (entries : List (String × Json)) :
    Prop where
  keys : ∀ key ∈ Table.names entries, key ∈ Table.names members
  present : ∀ key ∈ required, ∃ value, Table.find? key entries = some value
  checked : ∀ key check, Table.find? key members = some check →
    ∀ value, Table.find? key entries = some value →
    check value = []

/-- An object in which nothing is wrong has the required keys, no other keys than the known ones,
and under each key a value that passes. -/
theorem accepted_of_object {required : List String} {members : List (String × Check)} {value : Json}
    (h : object required members value = []) :
    ∃ entries, value = .object entries ∧ Accepted required members entries := by
  cases value with
  | object entries =>
    rw [object, List.append_eq_nil_iff, List.append_eq_nil_iff] at h
    obtain ⟨⟨hmissing, hknown⟩, hunknown⟩ := h
    refine ⟨entries, rfl, fun key hkey ↦ ?_,
      fun key hkey ↦ ?_, fun key check hcheck value hfind ↦ ?_⟩
    · rw [unknownKeys] at hunknown
      split at hunknown
      · rename_i hfilter
        have hknown := List.filter_eq_nil_iff.1 hfilter key hkey
        simpa using hknown
      · cases hunknown
    · by_contra hnone
      have habsent : Table.contains key entries = false := by
        rw [Table.contains, Option.isSome_eq_false_iff, Option.isNone_iff_eq_none]
        exact Option.eq_none_iff_forall_ne_some.2 fun value hvalue ↦ hnone ⟨value, hvalue⟩
      have hmem : key ∈ required.filter (!Table.contains · entries) :=
        List.mem_filter.2 ⟨hkey, by rw [habsent]; rfl⟩
      cases List.flatMap_eq_nil_iff.1 hmissing key hmem
    · have hentry := List.flatMap_eq_nil_iff.1 hknown (key, value)
        (Table.mem_of_find?_eq_some hfind)
      simp only [hcheck] at hentry
      exact List.map_eq_nil_iff.1 hentry
  | _ => cases h

/-- The values of a table in which nothing is wrong pass their check. Nothing is needed of its
keys. -/
theorem exists_entries_of_table {check : Check} {value : Json} (h : table check value = []) :
    ∃ entries, value = .object entries ∧ ∀ entry ∈ entries, check entry.2 = [] := by
  cases value with
  | object entries =>
    rw [table, List.append_eq_nil_iff] at h
    refine ⟨entries, rfl, fun entry hentry ↦ ?_⟩
    exact List.map_eq_nil_iff.1 (List.flatMap_eq_nil_iff.1 h.2 entry hentry)
  | _ => cases h

end Schema

/-! ### Methods and events -/

section Members

variable {value : Json} (hwf : value.WellFormed)
include hwf

/-- A parameter that passes its check is read as what it writes down. -/
theorem readsAs_parameter (h : Schema.parameter value = []) :
    ReadsAs (readParameter .value ·.node) Member.WrittenAs value := by
  obtain ⟨entries, rfl, hform⟩ := Schema.accepted_of_object h
  obtain ⟨nameValue, hname⟩ := hform.present "name" (by decide)
  obtain ⟨type, htype⟩ := hform.present "type" (by decide)
  obtain ⟨name, rfl⟩ := Schema.exists_text_of_name (hform.checked "name" _ rfl nameValue hname)
  have htypeRef := Schema.oneForm_eq_nil_iff.1 (hform.checked "type" _ rfl type htype)
  exact follows_member .parameter (wellFormed_object_iff.1 hwf).1 hform.keys hname htype
    ((typedReads (wellFormed_of_find? hwf htype)).typeRef htypeRef)
    fun flag hflag ↦ Schema.isFlag_of_flag (hform.checked "nullable" _ rfl flag hflag)

/-- An error of a method is read as what it writes down. Its payload may be left out. -/
theorem readsAs_methodError (h : Schema.methodError value = []) :
    ReadsAs (readMethodError .value ·.node) MethodError.WrittenAs value := by
  obtain ⟨entries, rfl, hform⟩ := Schema.accepted_of_object h
  obtain ⟨codeValue, hcode⟩ := hform.present "code" (by decide)
  obtain ⟨code, rfl⟩ := Schema.exists_text_of_name (hform.checked "code" _ rfl codeValue hcode)
  have hpayload := fun payload hpayload ↦
    Schema.oneForm_eq_nil_iff.1 (hform.checked "payload" _ rfl payload hpayload)
  show Follows _ ((MethodErrorParts.shape .value).ofObject .value 0 false _ (.closed 0)).toOption _
  refine follows_ofObject MethodErrorParts.keyed (wellFormed_object_iff.1 hwf).1
    (kind_ne_bytes_of_keys hform.keys (by decide)) hform.keys (follows_text hcode rfl ?_)
  refine follows_optional (readsAs_typeRef_option hwf hpayload)
    (fun payload ↦ { code := some code, payload }) (fun found ↦ ?_) fun payload hpayload ↦ ?_
  · cases found <;> rfl
  exact follows_done ⟨⟨code, payload.join⟩, rfl, hcode, rel_join hpayload⟩

/-- An event is read as what it writes down. Its payload may be left out. -/
theorem readsAs_event (h : Schema.event value = []) :
    ReadsAs (readEvent .value ·.node) Event.WrittenAs value := by
  obtain ⟨entries, rfl, hform⟩ := Schema.accepted_of_object h
  obtain ⟨nameValue, hname⟩ := hform.present "name" (by decide)
  obtain ⟨name, rfl⟩ := Schema.exists_text_of_name (hform.checked "name" _ rfl nameValue hname)
  have hpayload := fun payload hpayload ↦
    Schema.oneForm_eq_nil_iff.1 (hform.checked "payload" _ rfl payload hpayload)
  show Follows _ ((EventParts.shape .value).ofObject .value 0 false _ (.closed 0)).toOption _
  refine follows_ofObject EventParts.keyed (wellFormed_object_iff.1 hwf).1
    (kind_ne_bytes_of_keys hform.keys (by decide)) hform.keys (follows_text hname rfl ?_)
  refine follows_optional (readsAs_typeRef_option hwf hpayload)
    (fun payload ↦ { name := some name, payload }) (fun found ↦ ?_) fun payload hpayload ↦ ?_
  · cases found <;> rfl
  exact follows_done ⟨⟨name, payload.join⟩, rfl, hname, rel_join hpayload⟩

/-- A list is read if all items that pass the check are. -/
theorem readsAs_checkedList {check : Schema.Check} {read : Located → Except ReadError α}
    {R : α → Json → Prop}
    (hread : ∀ item : Json, item.WellFormed → check item = [] → ReadsAs (read ·.node) R item)
    (h : Schema.list check value = []) :
    ReadsAs (readList .value read ·.node) (ListWrittenAs R) value := by
  obtain ⟨items, rfl, hitems⟩ := Schema.exists_items_of_list h
  exact readsAs_list fun item hitem ↦ hread item (wellFormed_array_iff.1 hwf item hitem)
    (hitems item hitem)

end Members

/-- No list of errors counts as an empty one. -/
theorem errorsWrittenAs_of_rel {found : Option (List MethodError)} {stated : Option Json}
    (h : Option.Rel (ListWrittenAs MethodError.WrittenAs) found stated) :
    stated = none ∧ found.getD [] = [] ∨
      ∃ items, stated = some (.array items) ∧
      List.Forall₂ MethodError.WrittenAs (found.getD []) items := by
  cases h with
  | none => exact Or.inl ⟨rfl, rfl⟩
  | some h =>
    obtain ⟨items, rfl, hitems⟩ := h
    exact Or.inr ⟨items, rfl, hitems⟩

/-- A method is read as what it writes down: its five keys are looked up one after the other. -/
theorem readsAs_method {value : Json} (hwf : value.WellFormed) (h : Schema.method value = []) :
    ReadsAs (readMethod .value ·.node) Method.WrittenAs value := by
  obtain ⟨entries, rfl, hform⟩ := Schema.accepted_of_object h
  have hinner {key : String} {inner : Json} (hfind : Table.find? key entries = some inner) :
      inner.WellFormed := wellFormed_of_find? hwf hfind
  obtain ⟨nameValue, hname⟩ := hform.present "name" (by decide)
  obtain ⟨name, rfl⟩ := Schema.exists_text_of_name (hform.checked "name" _ rfl nameValue hname)
  obtain ⟨paramsValue, hparams⟩ := hform.present "params" (by decide)
  have hparamsRead := readsAs_checkedList (hinner hparams) (fun _ ↦ readsAs_parameter)
    (hform.checked "params" _ rfl paramsValue hparams)
  have hreturns := fun returns hreturns ↦
    Schema.oneForm_eq_nil_iff.1 (hform.checked "returns" _ rfl returns hreturns)
  have hflag := fun flag hflag ↦
    readsAs_flag_of_isFlag (Schema.isFlag_of_flag
      (hform.checked "returns_nullable" _ rfl flag hflag))
  have herrors := fun errors herrors ↦ readsAs_checkedList (hinner herrors)
    (fun _ ↦ readsAs_methodError) (hform.checked "errors" _ rfl errors herrors)
  show Follows _ ((MethodParts.shape .value).ofObject .value 0 false _ (.closed 0)).toOption _
  refine follows_ofObject MethodParts.keyed (wellFormed_object_iff.1 hwf).1
    (kind_ne_bytes_of_keys hform.keys (by decide)) hform.keys (follows_text hname rfl ?_)
  refine follows_required hparams hparamsRead fun params hparamsWritten ↦ ?_
  refine follows_optional (readsAs_typeRef_option hwf hreturns)
    (fun returns ↦ { name := some name, params := some params, returns }) (fun found ↦ ?_)
    fun returns hreturnsWritten ↦ ?_
  · cases found <;> rfl
  refine follows_optional hflag
    (fun returnsNullable ↦ { name := some name, params := some params, returns, returnsNullable })
    (fun found ↦ ?_)
    fun returnsNullable hflagWritten ↦ ?_
  · cases found <;> rfl
  refine follows_optional herrors
    (fun errors ↦ { name := some name, params := some params, returns, returnsNullable, errors })
    (fun found ↦ ?_)
    fun errors herrorsWritten ↦ ?_
  · cases found <;> rfl
  obtain ⟨items, rfl, hitems⟩ := hparamsWritten
  exact follows_done ⟨⟨name, params, returns.join, returnsNullable.getD false, errors.getD []⟩,
    rfl, hname,
    ⟨items, hparams, hitems⟩, rel_join hreturnsWritten, flagWrittenAs_of_rel hflagWritten,
    errorsWrittenAs_of_rel herrorsWritten⟩

/-! ### Documents -/

/-- The entries of a type table are read in order, up to the first that cannot be read. -/
theorem follows_readTypeEntries {written : List (String × Json)}
    (h : ∀ entry ∈ written, ReadsAs (readTypeDef .value ·.node) TypeDef.WrittenAs entry.2) :
    Follows (∃ entry ∈ written, entry.2.HasDoubleSize)
      (readTypeEntries .value (Located.ofJsonEntries written)).toOption
      (List.Forall₂ EntryWrittenAs · written) := by
  rw [Located.ofJsonEntries_eq_map]
  induction written with
  | nil => exact (Follows.pure .nil).congr (by simp)
  | cons entry written ih =>
    have hentry := h entry List.mem_cons_self
    have hrest := ih fun other hother ↦ h other (List.mem_cons_of_mem entry hother)
    rw [List.map_cons, readTypeEntries, toOption_bind, toOption_mapError, toOption_ok,
      Option.bind_some, toOption_bind, toOption_mapError]
    simp only [toOption_bind]
    refine (hentry.bind fun typeDef htypeDef ↦ hrest.bind fun types htypes ↦
      Follows.pure (W := (List.Forall₂ EntryWrittenAs · (entry :: written)))
      (.cons ⟨rfl, htypeDef⟩ htypes)).congr ?_
    rw [List.exists_mem_cons_iff, or_false]

/-- A type table is read with its entries in the order in which they are written. -/
theorem readsAs_typeTable {value : Json} (hwf : value.WellFormed)
    (h : Schema.table (Schema.oneForm isTypeDef) value = []) :
    ReadsAs (readTypeTable .value ·.node)
      (fun types value ↦ ∃ written, value = .object written ∧
        List.Forall₂ EntryWrittenAs types written) value := by
  obtain ⟨written, rfl, hwritten⟩ := Schema.exists_entries_of_table h
  obtain ⟨hnd, hentries⟩ := wellFormed_object_iff.1 hwf
  have hdefs : ∀ entry ∈ written, isTypeDef entry.2 = true := fun entry hentry ↦
    Schema.oneForm_eq_nil_iff.1 (hwritten entry hentry)
  have hreads :
      ∀ entry ∈ written, ReadsAs (readTypeDef .value ·.node) TypeDef.WrittenAs entry.2 := by
    intro entry hentry
    obtain ⟨name, value⟩ := entry
    have hdef : isTypeDef value = true := hdefs _ hentry
    cases value with
    | object entries => exact readsAs_typeDef_object (hentries _ hentry) hdef
    | _ => cases hdef
  -- a type named "kind" has a definition, which is no text
  have hkind : Table.find? "kind" written ≠ some (.string "bytes") := by
    intro hfind
    cases hdefs _ (Table.mem_of_find?_eq_some hfind)
  have htable : (readTypeTable .value (.ofJson (.object written))).toOption =
      (readTypeEntries .value (Located.ofJsonEntries written)).toOption := by
    rw [Located.ofJson, readTypeTable]
    cases readTypeEntries .value (Located.ofJsonEntries written) <;> rfl
  show Follows _ (readTypeTable .value (.ofJson (.object written))).toOption _
  rw [htable]
  exact ((follows_readTypeEntries hreads).imp fun types htypes ↦ ⟨written, rfl, htypes⟩).congr
    (hasDoubleSize_object_iff hkind).symm

/-- A whole document that passes its check is read as what it writes down. -/
theorem readsAs_document {value : Json} (hwf : value.WellFormed) (h : Schema.manifest value = []) :
    ReadsAs (readDocument .value ·.node) Document.WrittenAs value := by
  obtain ⟨entries, rfl, hform⟩ := Schema.accepted_of_object h
  have hinner {key : String} {inner : Json} (hfind : Table.find? key entries = some inner) :
      inner.WellFormed := wellFormed_of_find? hwf hfind
  obtain ⟨version, hversion⟩ := hform.present "schema_version" (by decide)
  obtain rfl := Schema.word_eq_nil_iff.1 (hform.checked "schema_version" _ rfl version hversion)
  obtain ⟨typesValue, htypes⟩ := hform.present "types" (by decide)
  have htypesRead := readsAs_typeTable (hinner htypes)
    (hform.checked "types" _ rfl typesValue htypes)
  obtain ⟨methodsValue, hmethods⟩ := hform.present "methods" (by decide)
  have hmethodsRead := readsAs_checkedList (hinner hmethods) (fun _ ↦ readsAs_method)
    (hform.checked "methods" _ rfl methodsValue hmethods)
  obtain ⟨eventsValue, hevents⟩ := hform.present "events" (by decide)
  have heventsRead := readsAs_checkedList (hinner hevents) (fun _ ↦ readsAs_event)
    (hform.checked "events" _ rfl eventsValue hevents)
  show Follows _ ((DocumentParts.shape .value).ofObject .value 0 false _ (.closed 0)).toOption _
  refine follows_ofObject DocumentParts.keyed (wellFormed_object_iff.1 hwf).1
    (kind_ne_bytes_of_keys hform.keys (by decide)) hform.keys (follows_text hversion rfl ?_)
  refine follows_required htypes htypesRead fun types htypesWritten ↦ ?_
  refine follows_required hmethods hmethodsRead fun methods hmethodsWritten ↦ ?_
  refine follows_required hevents heventsRead fun events heventsWritten ↦ ?_
  obtain ⟨written, rfl, hwritten⟩ := htypesWritten
  obtain ⟨methodItems, rfl, hmethodItems⟩ := hmethodsWritten
  obtain ⟨eventItems, rfl, heventItems⟩ := heventsWritten
  exact follows_done ⟨⟨_, types, methods, events⟩, rfl, hversion, ⟨written, htypes, hwritten⟩,
    ⟨methodItems, hmethods, hmethodItems⟩, ⟨eventItems, hevents, heventItems⟩⟩

/-- A value without repeated keys that satisfies the format cannot be read exactly if a fixed length
in it is written as a double. In all other cases it is read as the document that it writes down; in
particular every fixed length is the number that stands in the value, which is of 32 bits and not
zero. -/
theorem format_agrees_with_reading {value : Json} (hwf : value.WellFormed)
    (h : Schema.violations value = []) :
    ((∃ error, readFromJson readDocument value = .error error) ↔ value.HasDoubleSize) ∧
      (¬ value.HasDoubleSize → ∃ document, readFromJson readDocument value = .ok document ∧
        document.WrittenAs value) := by
  have hreads := readsAs_document hwf (List.map_eq_nil_iff.1 h)
  have hgives : ¬ value.HasDoubleSize → ∃ document, readFromJson readDocument value = .ok document ∧
      document.WrittenAs value := by
    intro hdouble
    obtain ⟨document, hdocument, hwritten⟩ := hreads.gives hdouble
    exact ⟨document, toOption_eq_some_iff.1 hdocument, hwritten⟩
  refine ⟨⟨?_, fun hdouble ↦ toOption_eq_none_iff.1 (hreads.fails hdouble)⟩, hgives⟩
  rintro ⟨error, herror⟩
  by_contra hdouble
  obtain ⟨document, hdocument, -⟩ := hgives hdouble
  rw [hdocument] at herror
  cases herror

/-- A value with byte sequences of fixed length in a definition and inside of a parameter. The
second length is the double `16.0`. -/
def sized : Json :=
  .object [("types", .object [
      ("Digest", .object [("size", .number (.whole 4294967295)), ("kind", .string "bytes"),
        ("encoding", .string "hex")])]),
    ("schema_version", .string "wasm-abi/1"),
    ("events", .array [.object [("payload", .object [("$ref", .string "Digest")]),
      ("name", .string "Stored")]]),
    ("methods", .array [.object [("name", .string "store"), ("params", .array [
      .object [("nullable", .bool true), ("name", .string "parts"),
        ("type", .object [("kind", .string "list"), ("items", .object [("kind", .string "bytes"),
          ("size", .number (.double ⟨false, 4503599627370496, -48⟩))])])]])]])]

theorem format_agrees_with_reading_sized :
    sized.WellFormed ∧ Schema.violations sized = [] ∧
      ((∃ error, readFromJson readDocument sized = .error error) ↔ sized.HasDoubleSize) ∧
      (¬ sized.HasDoubleSize → ∃ document, readFromJson readDocument sized = .ok document ∧
        document.WrittenAs sized) := by
  have hwf : sized.WellFormed := by
    simp [sized, Json.WellFormed, Json.WellFormedItems, Json.WellFormedEntries]
  have hform : Schema.violations sized = [] := rfl
  exact ⟨hwf, hform, format_agrees_with_reading hwf hform⟩

end AbiBindings
