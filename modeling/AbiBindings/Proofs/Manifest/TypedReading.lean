import AbiBindings.Manifest.Grammar
import AbiBindings.Proofs.Manifest.Keywise
import AbiBindings.Proofs.Manifest.WrittenForm

/-!
# Types are read as they are written

A value that has the form of a type reference or a type definition is read as the type that it
writes down, or it has a double for a fixed length, and then it cannot be read (`ReadsAs`).

An object is read key by key, so it comes down to the values under its keys: `follows_required`,
`follows_optional` and `follows_text` take one key each. The forms of the grammar are gone through
one after the other, and each looks at its own keys only. Type references and fields contain each
other, and are read by induction on the value (`typedReads`).
-/

namespace AbiBindings

open Json Grammar

variable {σ α β : Type} {entries : List (String × Json)}

/-! ### Values under keys -/

/-- The value is read as what it writes down, and cannot be read exactly if it has a double for a
fixed length. -/
def ReadsAs (read : Child → Except ReadError β) (R : β → Json → Prop) (value : Json) : Prop :=
  Follows value.HasDoubleSize (read (.ofJson value)).toOption (R · value)

/-- Under one of the keys is a double for a fixed length. -/
def DoubleUnder (entries : List (String × Json)) (keys : List String) : Prop :=
  ∃ key ∈ keys, ∃ value, Table.find? key entries = some value ∧ value.HasDoubleSize

section Slots

variable {key : String} {keys : List String} {get : σ → Option β} {set : β → σ → σ}
  {read : Child → Except ReadError β} {R : β → Json → Prop} {slots : List (Slot σ)} {parts : σ}
  {V : σ → Prop}

theorem follows_done (h : V parts) :
    Follows (DoubleUnder entries []) (fillSlots entries [] parts) V :=
  (Follows.pure h).congr (by simp [DoubleUnder])

/-- A key that may be left out. -/
theorem follows_optional (h : ∀ value, Table.find? key entries = some value → ReadsAs read R value)
    (put : Option β → σ) (hput : ∀ found, put found = found.elim parts (set · parts))
    (hslots : ∀ found, Option.Rel R found (Table.find? key entries) →
      Follows (DoubleUnder entries keys) (fillSlots entries slots (put found)) V) :
    Follows (DoubleUnder entries (key :: keys))
      (fillSlots entries (.of key get set read :: slots) parts) V :=
  (Follows.slot (follows_lookUp h) put hput hslots).congr
    (by simp only [DoubleUnder, List.exists_mem_cons_iff])

/-- A key that has to be there. -/
theorem follows_required {value : Json} (hfind : Table.find? key entries = some value)
    (h : ReadsAs read R value)
    (hslots : ∀ b, R b value → Follows (DoubleUnder entries keys) (fillSlots entries slots
      (set b parts)) V) :
    Follows (DoubleUnder entries (key :: keys))
      (fillSlots entries (.of key get set read :: slots) parts) V := by
  have hreads : ∀ other, Table.find? key entries = some other → ReadsAs read R other := by
    intro other hother
    rw [hfind] at hother
    exact Option.some.inj hother ▸ h
  refine follows_optional hreads _ (fun _ ↦ rfl) fun found hfound ↦ ?_
  rw [hfind] at hfound
  cases hfound with
  | some hb => exact hslots _ hb

/-- A key whose value is read for certain. -/
theorem follows_found {value : Json} {b : β} {P : Prop}
    (hfind : Table.find? key entries = some value) (hread : read (.ofJson value) = .ok b)
    (hslots : Follows P (fillSlots entries slots (set b parts)) V) :
    Follows P (fillSlots entries (.of key get set read :: slots) parts) V := by
  have hfill : fillSlots entries (.of key get set read :: slots) parts =
      fillSlots entries slots (set b parts) := by
    simp only [fillSlots, Slot.of, hfind, hread]
    rfl
  rw [hfill]
  exact hslots

/-- A key with a text. -/
theorem follows_text {text : String} {b : β} (hfind : Table.find? key entries = some (.string text))
    (hread : read (.ofJson (.string text)) = .ok b)
    (hslots : Follows (DoubleUnder entries keys) (fillSlots entries slots (set b parts)) V) :
    Follows (DoubleUnder entries (key :: keys))
      (fillSlots entries (.of key get set read :: slots) parts) V := by
  have htext : ¬ ∃ value, Table.find? key entries = some value ∧ value.HasDoubleSize := by
    rintro ⟨value, hvalue, hdouble⟩
    rw [hfind] at hvalue
    cases hvalue
    cases hdouble
  refine (follows_found hfind hread hslots).congr ?_
  rw [DoubleUnder, DoubleUnder, List.exists_mem_cons_iff, or_iff_right htext]

/-- A value that may be null, and is not. -/
theorem follows_option (read : Child → Except ReadError β) {value : Json} {P : Prop}
    (h : Follows P (read (.ofJson value)).toOption (R · value)) (hnull : value ≠ .null) :
    Follows P
      (if isNull (Child.ofJson value).node then .ok none
        else (read (.ofJson value)).map some).toOption
      fun found ↦ ∃ b, found = some b ∧ R b value := by
  have hnode : isNull (Child.ofJson value).node = false := by
    cases value with
    | null => exact absurd rfl hnull
    | _ => rfl
  rw [hnode, if_neg Bool.false_ne_true, toOption_map]
  exact h.map fun b hb ↦ ⟨b, rfl, hb⟩

theorem ReadsAs.option {value : Json} (h : ReadsAs read R value) (hnull : value ≠ .null) :
    ReadsAs (fun child ↦ if isNull child.node then .ok none else (read child).map some)
      (fun found value ↦ ∃ b, found = some b ∧ R b value) value :=
  follows_option read h hnull

theorem rel_join {found : Option (Option β)} {stated : Option Json}
    (h : Option.Rel (fun found value ↦ ∃ b, found = some b ∧ R b value) found stated) :
    Option.Rel R found.join stated := by
  cases h with
  | none => exact .none
  | some h =>
    obtain ⟨b, rfl, hb⟩ := h
    exact .some hb

/-- An object that is no byte sequence is read by its shape, if the values under its keys make up
the part. -/
theorem follows_ofObject {shape : Shape σ α} (hshape : shape.Keyed)
    (hnd : (Table.names entries).Nodup)
    (hkind : Table.find? "kind" entries ≠ some (.string "bytes"))
    (hkeys : ∀ key ∈ Table.names entries, key ∈ keys) {W : α → Prop}
    (hfill : Follows (DoubleUnder entries keys)
      (fillSlots entries (shape.slots.filter (·.key ∈ keys)) shape.empty)
      fun parts ↦ ∃ a, shape.build (fun _ key ↦ .missing key) parts = .ok a ∧ W a) :
    Follows (Json.object entries).HasDoubleSize
      (shape.ofObject .value 0 false (readChildEntries .value (Located.ofJsonEntries entries))
        (.closed 0)).toOption
      W := by
  have hbuild : ∀ parts, (∃ a, shape.build (fun _ key ↦ .missing key) parts = .ok a ∧ W a) →
      Follows False (shape.build (fun _ key ↦ .missing key) parts).toOption W := by
    rintro parts ⟨a, ha, hW⟩
    rw [ha]
    exact .pure hW
  rw [Shape.toOption_ofObject hshape hnd, fillSlots_filter hkeys]
  refine (hfill.bind hbuild).congr ?_
  rw [or_false, hasDoubleSize_iff_exists_key hnd hkind hkeys]
  rfl

end Slots

/-! ### Single values and lists -/

/-- A value without fixed lengths that are written as doubles is read as intended if what is read is
right. -/
theorem readsAs_of_ok {read : Child → Except ReadError β} {R : β → Json → Prop}
    {value : Json} {b : β} (hread : read (.ofJson value) = .ok b) (hR : R b value)
    (hsize : ¬ value.HasDoubleSize) : ReadsAs read R value := by
  rw [ReadsAs, hread]
  exact (Follows.pure (W := (R · value)) hR).congr (iff_of_false id hsize)

theorem readsAs_text (text : String) :
    ReadsAs (readText .value ·.node) TextWrittenAs (.string text) :=
  readsAs_of_ok rfl rfl (by rintro ⟨⟩)

theorem readsAs_flag (flag : Bool) :
    ReadsAs (readFlag .value ·.node) (fun read value ↦ value = .bool read) (.bool flag) :=
  readsAs_of_ok rfl rfl (by rintro ⟨⟩)

/-- A list of values that are written in the given way. -/
def ListWrittenAs (R : α → Json → Prop) (parts : List α) (value : Json) : Prop :=
  ∃ items, value = .array items ∧ List.Forall₂ R parts items

/-- A list is read as intended if its items are. -/
theorem readsAs_list {read : Located → Except ReadError α} {R : α → Json → Prop} {items : List Json}
    (h : ∀ item ∈ items, ReadsAs (read ·.node) R item) :
    ReadsAs (readList .value read ·.node) (ListWrittenAs R) (.array items) := by
  have hlist : (readList .value read (.ofJson (.array items))).toOption =
      (readItems .value read (Located.ofJsonItems items)).toOption := by
    rw [Located.ofJson, readList]
    cases readItems .value read (Located.ofJsonItems items) <;> rfl
  refine Follows.congr ?_ hasDoubleSize_array_iff.symm
  show Follows _ (readList .value read (.ofJson (.array items))).toOption _
  rw [hlist]
  exact (follows_readItems h).imp fun parts hparts ↦ ⟨items, rfl, hparts⟩

/-! ### What the tests of values say -/

/-- A key that is not allowed is not there. -/
theorem find?_eq_none_of_keys {keys : List String} (hkeys : ∀ key ∈ Table.names entries, key ∈ keys)
    {key : String} (h : key ∉ keys) : Table.find? key entries = none :=
  Option.not_isSome_iff_eq_none.1 fun hsome ↦ h (hkeys key (Table.find?_isSome_iff.1 hsome))

/-- Only required and optional keys are there. -/
theorem mem_of_hasKeys {required optional : List String}
    (h : hasKeys required optional entries = true) :
    ∀ key ∈ Table.names entries, key ∈ required ++ optional := by
  intro key hkey
  obtain ⟨value, hentry⟩ := Table.mem_names_iff.1 hkey
  have hall := List.all_eq_true.1 (Bool.and_eq_true_iff.1 h).2 (key, value) hentry
  simpa using hall

/-- The test is passed by a value that is there. -/
theorem valueAt_iff {test : Json → Bool} {key : String} :
    valueAt test key entries = true ↔ ∃ value, Table.find? key entries = some value ∧
      test value = true := by
  rw [valueAt, Option.any_eq_true]

/-- The test is passed by the value, if it is there. -/
theorem valueIfAt_iff {test : Json → Bool} {key : String} :
    valueIfAt test key entries = true ↔ ∀ value, Table.find? key entries = some value →
      test value = true := by
  rw [valueIfAt, Option.all_eq_true]

theorem isTypeRefAt_eq_valueAt (key : String) (entries : List (String × Json)) :
    isTypeRefAt key entries = valueAt isTypeRef key entries := by
  induction entries with
  | nil => rw [isTypeRefAt]; rfl
  | cons entry entries ih =>
    rw [isTypeRefAt, ih, valueAt, valueAt, Table.find?]
    split <;> rfl

theorem isFieldListAt_eq_valueAt (key : String) (entries : List (String × Json)) :
    isFieldListAt key entries = valueAt isFieldList key entries := by
  induction entries with
  | nil => rw [isFieldListAt]; rfl
  | cons entry entries ih =>
    rw [isFieldListAt, ih, valueAt, valueAt, Table.find?]
    split <;> rfl

theorem areFields_eq_all (items : List Json) : areFields items = items.all isField := by
  induction items with
  | nil => rw [areFields]; rfl
  | cons item items ih => rw [areFields, ih]; rfl

theorem isWord_iff {word : String} {value : Json} :
    isWord word value = true ↔ value = .string word := by
  cases value <;> simp [isWord]

theorem exists_text_of_isName {value : Json} (h : isName value = true) :
    ∃ text, value = .string text := by
  cases value with
  | string text => exact ⟨text, rfl⟩
  | _ => cases h

theorem exists_text_of_isText {value : Json} (h : isText value = true) :
    ∃ text, value = .string text := by
  cases value with
  | string text => exact ⟨text, rfl⟩
  | _ => cases h

theorem exists_flag_of_isFlag {value : Json} (h : isFlag value = true) :
    ∃ flag, value = .bool flag := by
  cases value with
  | bool flag => exact ⟨flag, rfl⟩
  | _ => cases h

theorem exists_items_of_isFieldList {value : Json} (h : isFieldList value = true) :
    ∃ items, value = .array items ∧ ∀ item ∈ items, isField item = true := by
  cases value with
  | array items =>
    rw [isFieldList, areFields_eq_all, List.all_eq_true] at h
    exact ⟨items, rfl, h⟩
  | _ => cases h

/-! ### Byte sequences -/

/-- A count, which is not zero. -/
def CountWrittenAs (count : UInt32) (value : Json) : Prop :=
  value = .number (.whole count.toNat) ∧ count ≠ 0

/-- A count that the schema takes is read as it is, unless it is written as a double. -/
theorem follows_readCount {value : Json} (h : isByteCount value = true) :
    Follows (∃ size, value = .number (.double size))
      (readCount .value (Child.ofJson value).node).toOption (CountWrittenAs · value) := by
  cases value with
  | number n =>
    cases n with
    | whole k =>
      have hrange : 1 ≤ k ∧ k ≤ 4294967295 := by simpa [isByteCount, JsonNumber.toInt?] using h
      have hread : readCount .value (Child.ofJson (.number (.whole k))).node =
          .ok (UInt32.ofNat k.toNat) := by
        show (if 0 ≤ k ∧ k < 4294967296 then _ else _) = _
        rw [if_pos (by omega)]
      have hnat : (UInt32.ofNat k.toNat).toNat = k.toNat := UInt32.toNat_ofNat_of_lt' (by
        show k.toNat < 4294967296
        omega)
      rw [hread]
      refine (Follows.pure (W := (CountWrittenAs · _)) ⟨?_, fun hzero ↦ ?_⟩).congr (by simp)
      · rw [hnat, Int.toNat_of_nonneg (by omega)]
      · rw [hzero] at hnat
        have hk : (0 : Nat) = k.toNat := hnat
        omega
    | double x => exact ⟨fun _ ↦ rfl, fun hnot ↦ absurd ⟨x, rfl⟩ hnot⟩
  | _ => cases h

/-- A count that was read makes a length, as does none. -/
theorem exists_ofSize? {size : Option UInt32} {stated : Option Json}
    (h : Option.Rel CountWrittenAs size stated) :
    ∃ length, ByteLength.ofSize? size = .ok length ∧ length.WrittenAs stated := by
  cases h with
  | none => exact ⟨.any, rfl, rfl⟩
  | @some count value h =>
    obtain ⟨rfl, hne⟩ := h
    refine ⟨.fixed ⟨count, hne⟩, by rw [ByteLength.ofSize?, dif_pos hne], rfl, ?_, ?_⟩
    · exact Nat.pos_of_ne_zero fun hzero ↦ hne (UInt32.toNat_inj.1 hzero)
    · exact Nat.le_of_lt_succ count.toNat_lt

/-- In a byte sequence, the only size is its own. -/
theorem hasDoubleSize_bytes_iff (hnd : (Table.names entries).Nodup) (h : isBytes entries = true) :
    (Json.object entries).HasDoubleSize ↔
      ∃ value, Table.find? "size" entries = some value ∧
      ∃ size, value = .number (.double size) := by
  simp only [isBytes, Bool.and_eq_true, valueAt_iff, valueIfAt_iff] at h
  obtain ⟨⟨⟨hkeys, kind, hkind, hbytes⟩, hsize⟩, hencoding⟩ := h
  obtain rfl := isWord_iff.1 hbytes
  constructor
  · intro hdouble
    cases hdouble with
    | here _ hsize => exact ⟨_, hsize, _, rfl⟩
    | @entry _ key value hentry hinner =>
      -- none of the three keys has a value with parts
      have hfind := (Table.find?_eq_some_iff hnd).2 hentry
      have hkey : key ∈ ["kind", "size", "encoding"] :=
        mem_of_hasKeys hkeys key (Table.mem_names_iff.2 ⟨value, hentry⟩)
      simp only [List.mem_cons, List.not_mem_nil, or_false] at hkey
      rcases hkey with rfl | rfl | rfl
      · rw [hkind] at hfind
        cases hfind
        cases hinner
      · have hcount := hsize value hfind
        cases hinner <;> cases hcount
      · obtain rfl := isWord_iff.1 (hencoding value hfind)
        cases hinner
  · rintro ⟨value, hfind, size, rfl⟩
    exact .here hkind hfind

/-- The size of a byte sequence is looked up, if it has one. -/
theorem follows_lookUp_size (h : isBytes entries = true) :
    Follows (∃ value, Table.find? "size" entries = some value ∧
      ∃ size, value = .number (.double size)) (lookUp entries "size" fun child ↦
        if isNull child.node then .ok none else (readCount .value child.node).map some)
      fun found ↦ Option.Rel CountWrittenAs found.join (Table.find? "size" entries) := by
  simp only [isBytes, Bool.and_eq_true, valueIfAt_iff] at h
  refine (follows_lookUp fun value hfind ↦ ?_).imp fun found hfound ↦ rel_join hfound
  have hcount := h.1.2 value hfind
  have hnull : value ≠ .null := by
    rintro rfl
    cases hcount
  exact follows_option (readCount .value ·.node) (follows_readCount hcount) hnull

/-! ### Type references and fields -/

/-- The value is read as a type reference, a field or a list of fields, if it is one. -/
structure TypedReads (value : Json) : Prop where
  typeRef : isTypeRef value = true → ReadsAs (·.typeRef ()) TypeRef.WrittenAs value
  field : isField value = true → ReadsAs (readField .value ·.node) Member.WrittenAs value
  fields : isFieldList value = true → ReadsAs (·.fields ()) (ListWrittenAs Member.WrittenAs) value

theorem ne_null_of_isTypeRef {value : Json} (h : isTypeRef value = true) : value ≠ .null := by
  rintro rfl
  cases h

theorem ne_null_of_isFieldList {value : Json} (h : isFieldList value = true) : value ≠ .null := by
  rintro rfl
  cases h

/-- A type reference is read if the values under its keys make up one. -/
theorem readsAs_typeRef (hnd : (Table.names entries).Nodup) {keys : List String}
    (hkeys : ∀ key ∈ Table.names entries, key ∈ keys) {P : Prop}
    (hP : P ↔ (Json.object entries).HasDoubleSize)
    (hfill : Follows P (fillSlots entries ((RefParts.shape .value).slots.filter (·.key ∈ keys)) {})
      fun parts ↦ ∃ type, parts.toTypeRef = .ok type ∧ type.WrittenAs (.object entries)) :
    ReadsAs (·.typeRef ()) TypeRef.WrittenAs (.object entries) := by
  have hread : (readTypeRef .value (.ofJson (.object entries))).toOption =
      (fillSlots entries (RefParts.shape .value).slots {}).bind fun parts ↦
      parts.toTypeRef.toOption := by
    have hparts := Shape.toOption_ofObject RefParts.keyed hnd
    rw [Located.ofJson, readTypeRef, toOption_bind, hparts, Option.bind_assoc]
    refine Option.bind_congr fun parts _ ↦ ?_
    exact toOption_mapError _ _
  have hmake :
      ∀ parts : RefParts, (∃ type, parts.toTypeRef = .ok type ∧ type.WrittenAs (.object entries)) →
      Follows False parts.toTypeRef.toOption (·.WrittenAs (.object entries)) := by
    rintro parts ⟨type, htype, hwritten⟩
    rw [htype]
    exact .pure hwritten
  show Follows _ (readTypeRef .value (.ofJson (.object entries))).toOption _
  rw [hread, fillSlots_filter hkeys]
  exact (hfill.bind hmake).congr (by rw [or_false, hP])

/-- A byte sequence is read as one. -/
theorem readsAs_typeRef_bytes (hnd : (Table.names entries).Nodup) (h : isBytes entries = true) :
    ReadsAs (·.typeRef ()) TypeRef.WrittenAs (.object entries) := by
  have hform := h
  simp only [isBytes, Bool.and_eq_true, valueAt_iff] at hform
  obtain ⟨⟨⟨hkeys, kind, hkind, hbytes⟩, -⟩, -⟩ := hform
  obtain rfl := isWord_iff.1 hbytes
  refine readsAs_typeRef hnd (mem_of_hasKeys hkeys) (hasDoubleSize_bytes_iff hnd h).symm ?_
  refine follows_found hkind rfl ?_
  refine (Follows.slot (follows_lookUp_size h) (fun size ↦ { kind := some (some "bytes"), size })
    (fun found ↦ ?_) fun size hsize ↦ Follows.pure ?_).congr (or_iff_left id)
  · cases found <;> rfl
  · obtain ⟨length, hlength, hwritten⟩ := exists_ofSize? hsize
    refine ⟨.bytes length, ?_, .bytes hkind hwritten⟩
    show Except.map _ (ByteLength.ofSize? size.join) = _
    rw [hlength]
    rfl

/-- With another kind it is no byte sequence. -/
theorem kind_ne_bytes {word : String} (hkind : Table.find? "kind" entries = some (.string word))
    (hword : word ≠ "bytes") : Table.find? "kind" entries ≠ some (.string "bytes") := by
  rw [hkind]
  simpa using hword

/-- Without a kind it is none either. -/
theorem kind_ne_bytes_of_keys {keys : List String} (hkeys : ∀ key ∈ Table.names entries, key ∈ keys)
    (h : "kind" ∉ keys) : Table.find? "kind" entries ≠ some (.string "bytes") := by
  rw [find?_eq_none_of_keys hkeys h]
  exact nofun

/-- An object that is a type reference is read as one, if the values in it are. -/
theorem readsAs_typeRef_object (hnd : (Table.names entries).Nodup)
    (hinner : ∀ key value, Table.find? key entries = some value → TypedReads value)
    (h : isTypeRef (.object entries) = true) :
    ReadsAs (·.typeRef ()) TypeRef.WrittenAs (.object entries) := by
  have hread {keys : List String} (hkeys : ∀ key ∈ Table.names entries, key ∈ keys)
      (hkind : Table.find? "kind" entries ≠ some (.string "bytes")) :=
    readsAs_typeRef hnd hkeys (hasDoubleSize_iff_exists_key hnd hkind hkeys).symm
  simp only [isTypeRef, isReference, isScalar, isTypeRefAt_eq_valueAt, isFieldListAt_eq_valueAt,
    Bool.or_eq_true, Bool.and_eq_true, valueAt_iff, List.any_eq_true] at h
  rcases h with ((((⟨hkeys, value, hfind, hname⟩ | ⟨hkeys, kind, -, value, hkind,
    hword⟩) | hbytes) | ⟨⟨hkeys, value, hkind, hword⟩, items, hitems, htype⟩) |
    ⟨⟨⟨hkeys, value, hkind, hword⟩, key, hkey, hkeyType⟩, val, hval, hvalType⟩) |
    ⟨⟨hkeys, value, hkind, hword⟩, fields, hfields, hlist⟩
  · -- a name
    obtain ⟨name, rfl⟩ := exists_text_of_isName hname
    refine hread (mem_of_hasKeys hkeys)
      (kind_ne_bytes_of_keys (mem_of_hasKeys hkeys) (by decide)) ?_
    exact follows_text hfind rfl <| follows_done ⟨.reference name, rfl, .reference hfind⟩
  · -- a scalar
    obtain rfl := isWord_iff.1 hword
    refine hread (mem_of_hasKeys hkeys) (kind_ne_bytes hkind (by cases kind <;> decide)) ?_
    exact follows_text hkind rfl <|
      follows_done ⟨.scalar kind, by cases kind <;> rfl, .scalar hkind⟩
  · exact readsAs_typeRef_bytes hnd hbytes
  · -- a list
    obtain rfl := isWord_iff.1 hword
    refine hread (mem_of_hasKeys hkeys) (kind_ne_bytes hkind (by decide))
      (follows_text hkind rfl ?_)
    have hitemsRead := (hinner "items" items hitems).typeRef htype
    refine follows_required hitems (hitemsRead.option (ne_null_of_isTypeRef htype)) ?_
    rintro _ ⟨type, rfl, hwritten⟩
    exact follows_done ⟨.list type, rfl, .list hkind hitems hwritten⟩
  · -- a map
    obtain rfl := isWord_iff.1 hword
    refine hread (mem_of_hasKeys hkeys) (kind_ne_bytes hkind (by decide))
      (follows_text hkind rfl ?_)
    have hkeyRead := (hinner "key" key hkey).typeRef hkeyType
    have hvalRead := (hinner "value" val hval).typeRef hvalType
    refine follows_required hkey (hkeyRead.option (ne_null_of_isTypeRef hkeyType)) ?_
    rintro _ ⟨keyType, rfl, hkeyWritten⟩
    refine follows_required hval (hvalRead.option (ne_null_of_isTypeRef hvalType)) ?_
    rintro _ ⟨valType, rfl, hvalWritten⟩
    exact follows_done ⟨.map keyType valType, rfl, .map hkind hkey hval hkeyWritten hvalWritten⟩
  · -- a record
    obtain rfl := isWord_iff.1 hword
    refine hread (mem_of_hasKeys hkeys) (kind_ne_bytes hkind (by decide))
      (follows_text hkind rfl ?_)
    have hfieldsRead := (hinner "fields" fields hfields).fields hlist
    refine follows_required hfields (hfieldsRead.option (ne_null_of_isFieldList hlist)) ?_
    rintro _ ⟨members, rfl, items, rfl, hwritten⟩
    exact follows_done ⟨.record members, rfl, .record hkind hfields hwritten⟩

theorem flagWrittenAs_of_rel {found : Option Bool} {stated : Option Json}
    (h : Option.Rel (fun flag value ↦ value = .bool flag) found stated) :
    FlagWrittenAs (found.getD false) stated := by
  cases h with
  | none => exact Or.inr ⟨rfl, rfl⟩
  | some h => exact Or.inl (congrArg some h)

theorem readsAs_flag_of_isFlag {value : Json} (h : isFlag value = true) :
    ReadsAs (readFlag .value ·.node) (fun flag value ↦ value = .bool flag) value := by
  obtain ⟨flag, rfl⟩ := exists_flag_of_isFlag h
  exact readsAs_flag flag

/-- An object with the keys of a field or a parameter is read as one. -/
theorem follows_member (wanted : Wanted) (hnd : (Table.names entries).Nodup)
    (hkeys : ∀ key ∈ Table.names entries, key ∈ ["name", "type", "nullable"])
    {name : String} {type : Json} (hname : Table.find? "name" entries = some (.string name))
    (htype : Table.find? "type" entries = some type)
    (hread : ReadsAs (·.typeRef ()) TypeRef.WrittenAs type)
    (hnullable : ∀ value, Table.find? "nullable" entries = some value → isFlag value = true) :
    Follows (Json.object entries).HasDoubleSize
      ((MemberParts.shape .value wanted).ofObject .value 0 false
        (readChildEntries .value (Located.ofJsonEntries entries)) (.closed 0)).toOption
      (Member.WrittenAs · (.object entries)) := by
  refine follows_ofObject (MemberParts.keyed wanted) hnd
    (kind_ne_bytes_of_keys hkeys (by decide)) hkeys ?_
  refine follows_text hname rfl <| follows_required htype hread fun inner hinner ↦ ?_
  refine follows_optional (fun value hfind ↦ readsAs_flag_of_isFlag (hnullable value hfind))
    (fun nullable ↦ { name := some name, type := some inner, nullable })
    (fun found ↦ ?_) fun found hfound ↦ ?_
  · cases found <;> rfl
  · exact follows_done ⟨⟨name, inner, found.getD false⟩, rfl,
      .intro hname htype hinner (flagWrittenAs_of_rel hfound)⟩

/-- A field is read with its name, its type and its flag, if the values in it are read as types. -/
theorem readsAs_field_object (hnd : (Table.names entries).Nodup)
    (hinner : ∀ key value, Table.find? key entries = some value → TypedReads value)
    (h : isField (.object entries) = true) :
    ReadsAs (readField .value ·.node) Member.WrittenAs (.object entries) := by
  simp only [isField, isTypeRefAt_eq_valueAt, Bool.and_eq_true, valueAt_iff, valueIfAt_iff] at h
  obtain ⟨⟨⟨hkeys, nameValue, hname, htext⟩, type, htype, hform⟩, hnullable⟩ := h
  obtain ⟨name, rfl⟩ := exists_text_of_isName htext
  have hread := follows_member .field hnd (mem_of_hasKeys hkeys) hname htype
    ((hinner "type" type htype).typeRef hform) hnullable
  show Follows _ (readField .value (.ofJson (.object entries))).toOption _
  rw [Located.ofJson, readField]
  exact hread

/-- Fields are read one by one. -/
theorem readsAs_fields_array {items : List Json} (hinner : ∀ item ∈ items, TypedReads item)
    (h : ∀ item ∈ items, isField item = true) :
    ReadsAs (·.fields ()) (ListWrittenAs Member.WrittenAs) (.array items) := by
  have hlist := readsAs_list fun item hitem ↦ (hinner item hitem).field (h item hitem)
  have hread : readFields .value (.ofJson (.array items)) =
      readList .value (readField .value) (.ofJson (.array items)) := by
    rw [Located.ofJson, readFields, readList, readFieldItems_eq_readItems]
  show Follows _ (readFields .value (.ofJson (.array items))).toOption _
  rw [hread]
  exact hlist

/-- In every value whose objects do not repeat keys, type references and fields are read as they are
written. -/
theorem typedReads {value : Json} (h : value.WellFormed) : TypedReads value := by
  induction value with
  | array items ih =>
    have hinner : ∀ item ∈ items, TypedReads item := fun item hitem ↦
      ih item hitem (wellFormed_array_iff.1 h item hitem)
    refine ⟨nofun, nofun, fun hlist ↦ ?_⟩
    obtain ⟨_, heq, hfields⟩ := exists_items_of_isFieldList hlist
    cases heq
    exact readsAs_fields_array hinner hfields
  | object entries ih =>
    obtain ⟨hnd, hentries⟩ := wellFormed_object_iff.1 h
    have hinner : ∀ key value, Table.find? key entries = some value → TypedReads value := by
      intro key value hfind
      have hentry := Table.mem_of_find?_eq_some hfind
      exact ih _ hentry (hentries _ hentry)
    exact ⟨readsAs_typeRef_object hnd hinner, readsAs_field_object hnd hinner, nofun⟩
  | _ => exact ⟨nofun, nofun, nofun⟩

/-! ### Type definitions -/

section Parts

variable (hwf : (Json.object entries).WellFormed)
include hwf

theorem wellFormed_of_find? {key : String} {value : Json}
    (h : Table.find? key entries = some value) : value.WellFormed :=
  (wellFormed_object_iff.1 hwf).2 _ (Table.mem_of_find?_eq_some h)

/-- A type reference under a key that may be left out or null. -/
theorem readsAs_typeRef_option {key : String}
    (h : ∀ value, Table.find? key entries = some value → isTypeRef value = true) (value : Json)
    (hfind : Table.find? key entries = some value) :
    ReadsAs (fun child ↦ if isNull child.node then .ok none else (child.typeRef ()).map some)
      (fun found value ↦ ∃ type, found = some type ∧ TypeRef.WrittenAs type value) value :=
  ((typedReads (wellFormed_of_find? hwf hfind)).typeRef (h value hfind)).option
    (ne_null_of_isTypeRef (h value hfind))

/-- A case is read with its name and its payload, if it has one. -/
theorem readsAs_case_object (h : isCase (.object entries) = true) :
    ReadsAs (readCase .value ·.node) Case.WrittenAs (.object entries) := by
  simp only [isCase, Bool.and_eq_true, valueAt_iff, valueIfAt_iff] at h
  obtain ⟨⟨⟨hkeys, nameValue, hname, htext⟩, hcode⟩, hpayload⟩ := h
  obtain ⟨name, rfl⟩ := exists_text_of_isName htext
  have hkeys := mem_of_hasKeys hkeys
  have hnd := (wellFormed_object_iff.1 hwf).1
  have hcodeReads : ∀ value, Table.find? "code" entries = some value →
      ReadsAs
        (fun child ↦ if isNull child.node then .ok none
          else (readText .value child.node).map some)
        (fun found value ↦ ∃ text, found = some text ∧ TextWrittenAs text value) value := by
    intro value hfind
    obtain ⟨text, rfl⟩ := exists_text_of_isText (hcode value hfind)
    exact (readsAs_text text).option nofun
  show Follows _ ((CaseParts.shape .value).ofObject .value 0 false _ (.closed 0)).toOption _
  refine follows_ofObject CaseParts.keyed hnd (kind_ne_bytes_of_keys hkeys (by decide)) hkeys ?_
  refine follows_text hname rfl ?_
  refine follows_optional hcodeReads (fun code ↦ { name := some name, code }) (fun found ↦ ?_)
    fun code hcode ↦ ?_
  · cases found <;> rfl
  refine follows_optional (readsAs_typeRef_option hwf hpayload)
    (fun payload ↦ { name := some name, code, payload }) (fun found ↦ ?_) fun payload hpayload ↦ ?_
  · cases found <;> rfl
  exact follows_done ⟨⟨name, code.join, payload.join⟩, rfl, hname, rel_join hcode,
    rel_join hpayload⟩

end Parts

theorem readsAs_caseList {value : Json} (hwf : value.WellFormed) (h : isCaseList value = true) :
    ReadsAs (readList .value (readCase .value) ·.node) (ListWrittenAs Case.WrittenAs) value := by
  cases value with
  | array items =>
    refine readsAs_list fun item hitem ↦ ?_
    have hcase := List.all_eq_true.1 h item hitem
    cases item with
    | object entries => exact readsAs_case_object (wellFormed_array_iff.1 hwf _ hitem) hcase
    | _ => cases hcase
  | _ => cases h

section Definitions

variable (hwf : (Json.object entries).WellFormed)
include hwf

/-- A type definition is read if the values under its keys make up one. -/
theorem readsAs_typeDef {keys : List String} (hkeys : ∀ key ∈ Table.names entries, key ∈ keys)
    {P : Prop} (hP : P ↔ (Json.object entries).HasDoubleSize)
    (hfill : Follows P (fillSlots entries ((DefParts.shape .value).slots.filter (·.key ∈ keys))
      {}) fun parts ↦
      ∃ kind typeDef, parts.kind = some kind ∧ parts.ofKind kind = .ok typeDef ∧
        typeDef.WrittenAs (.object entries)) :
    ReadsAs (readTypeDef .value ·.node) TypeDef.WrittenAs (.object entries) := by
  have hparts := Shape.toOption_ofObject DefParts.keyed (wellFormed_object_iff.1 hwf).1
  have hmake : ∀ parts : DefParts,
      (∃ kind typeDef, parts.kind = some kind ∧ parts.ofKind kind = .ok typeDef ∧
        typeDef.WrittenAs (.object entries)) →
      Follows False (((DefParts.shape .value).build (fun _ key ↦ .missing key) parts).toOption.bind
        fun made ↦
        (unplaced (made.2.ofKind made.1)).toOption) (·.WrittenAs (.object entries)) := by
    rintro parts ⟨kind, typeDef, hkind, hmade, hwritten⟩
    have hbuild : (DefParts.shape .value).build (fun _ key ↦ .missing key) parts =
        .ok (kind, parts) := by
      show (require _ parts.kind >>= fun kind ↦ _) = _
      rw [hkind]
      rfl
    rw [hbuild, toOption_ok, Option.bind_some, hmade]
    exact .pure hwritten
  show Follows _ (readTypeDef .value (.ofJson (.object entries))).toOption _
  rw [readTypeDef, toOption_bind]
  show Follows _ (((DefParts.shape .value).ofObject .value 0 false _ (.closed 0)).toOption.bind _) _
  rw [hparts, Option.bind_assoc, fillSlots_filter hkeys]
  exact (hfill.bind hmake).congr (by rw [or_false, hP])

/-- A definition of a byte sequence is read as one. -/
theorem readsAs_typeDef_bytes (h : isBytes entries = true) :
    ReadsAs (readTypeDef .value ·.node) TypeDef.WrittenAs (.object entries) := by
  have hform := h
  simp only [isBytes, Bool.and_eq_true, valueAt_iff] at hform
  obtain ⟨⟨⟨hkeys, kind, hkind, hbytes⟩, -⟩, -⟩ := hform
  obtain rfl := isWord_iff.1 hbytes
  refine readsAs_typeDef hwf (mem_of_hasKeys hkeys)
    (hasDoubleSize_bytes_iff (wellFormed_object_iff.1 hwf).1 h).symm (follows_found hkind rfl ?_)
  refine (Follows.slot (follows_lookUp_size h) (fun size ↦ { kind := some "bytes", size })
    (fun found ↦ ?_) fun size hsize ↦ Follows.pure ?_).congr (or_iff_left id)
  · cases found <;> rfl
  · obtain ⟨length, hlength, hwritten⟩ := exists_ofSize? hsize
    refine ⟨"bytes", .bytes length, rfl, ?_, .bytes hkind hwritten⟩
    show Except.map _ (ByteLength.ofSize? size.join) = _
    rw [hlength]
    rfl

/-- All definitions that the schema takes are read as intended. -/
theorem readsAs_typeDef_object (h : isTypeDef (.object entries) = true) :
    ReadsAs (readTypeDef .value ·.node) TypeDef.WrittenAs (.object entries) := by
  have hread {keys : List String} (hkeys : ∀ key ∈ Table.names entries, key ∈ keys)
      (hkind : Table.find? "kind" entries ≠ some (.string "bytes")) :=
    readsAs_typeDef hwf hkeys
      (hasDoubleSize_iff_exists_key (wellFormed_object_iff.1 hwf).1 hkind hkeys).symm
  simp only [isTypeDef, Bool.or_eq_true, Bool.and_eq_true, valueAt_iff] at h
  rcases h with ((⟨⟨hkeys, value, hkind, hword⟩, fields, hfields, hlist⟩ |
    ⟨⟨hkeys, value, hkind, hword⟩, cases, hcases, hlist⟩) | hbytes) |
    ⟨⟨hkeys, value, hkind, hword⟩, target, htarget, htype⟩
  · -- a record
    obtain rfl := isWord_iff.1 hword
    refine hread (mem_of_hasKeys hkeys) (kind_ne_bytes hkind (by decide))
      (follows_text hkind rfl ?_)
    have hfieldsRead := (typedReads (wellFormed_of_find? hwf hfields)).fields hlist
    refine follows_required hfields (hfieldsRead.option (ne_null_of_isFieldList hlist)) ?_
    rintro _ ⟨members, rfl, items, rfl, hwritten⟩
    exact follows_done ⟨"record", .record members, rfl, rfl, .record hkind hfields hwritten⟩
  · -- a variant
    obtain rfl := isWord_iff.1 hword
    refine hread (mem_of_hasKeys hkeys) (kind_ne_bytes hkind (by decide))
      (follows_text hkind rfl ?_)
    have hcasesRead := readsAs_caseList (wellFormed_of_find? hwf hcases) hlist
    refine follows_required hcases (hcasesRead.option (by rintro rfl; cases hlist)) ?_
    rintro _ ⟨members, rfl, items, rfl, hwritten⟩
    exact follows_done ⟨"variant", .variant members, rfl, rfl, .variant hkind hcases hwritten⟩
  · exact readsAs_typeDef_bytes hwf hbytes
  · -- an alias
    obtain rfl := isWord_iff.1 hword
    refine hread (mem_of_hasKeys hkeys) (kind_ne_bytes hkind (by decide))
      (follows_text hkind rfl ?_)
    have htargetRead := (typedReads (wellFormed_of_find? hwf htarget)).typeRef htype
    refine follows_required htarget (htargetRead.option (ne_null_of_isTypeRef htype)) ?_
    rintro _ ⟨type, rfl, hwritten⟩
    exact follows_done ⟨"alias", .aliasOf type, rfl, rfl, .aliasOf hkind htarget hwritten⟩

end Definitions

end AbiBindings
