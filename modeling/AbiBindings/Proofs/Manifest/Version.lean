import AbiBindings.Proofs.Manifest.KnownKeys

/-!
# The version of a manifest

The version is looked at twice. Before anything else it is looked up under its key in the plain
value, and another version than the supported one is refused there; later it is read into the
document with everything else. For an object the two are the same: the key is given once
(`GivenOnce`), so what is read is what was looked up.

A document may also be written as a list of its values. A list has no keys, so nothing is looked up
in it, and it is left to the validator to refuse it. The format of manifests does. A validator that
accepts a list lets every version through, since the first value of the list becomes the version
(`exists_items_of_readDocument`).
-/

namespace AbiBindings.Manifest

open Json

/-! ### The version that is looked up -/

theorem get?_strip {key : String} (hkey : Replication.isField key = false) (value : Json) :
    (Replication.strip value).get? key = (value.get? key).map Replication.strip := by
  cases value with
  | object fields =>
    rw [Replication.strip, Json.get?, Json.get?]
    induction fields with
    | nil => rfl
    | cons field fields ih =>
      obtain ⟨name, value⟩ := field
      rw [Replication.stripEntries]
      by_cases hname : name = key
      · subst hname
        rw [if_neg (Bool.eq_false_iff.1 hkey), Table.find?, Table.find?, if_pos rfl, if_pos rfl,
          Option.map_some]
      · rw [Table.find?, if_neg hname, ← ih]
        split
        · rfl
        · rw [Table.find?, if_neg hname]
  | _ => rfl

theorem strip_eq_string_iff {value : Json} {text : String} :
    Replication.strip value = .string text ↔ value = .string text := by
  cases value <;> simp [Replication.strip]

/-- Where a version is looked up, it is the supported one. -/
theorem version_of_checkForm {validator : Validator} {value stripped : Json} {version : String}
    (h : checkForm validator value = .ok stripped)
    (hversion : (Replication.strip value).get? "schema_version" = some (.string version)) :
    version = supportedVersion := by
  by_contra hne
  have hstated : statedVersion? (Replication.strip value) = some version := by
    rw [statedVersion?, hversion]
  simp only [checkForm, hstated, if_pos hne] at h
  cases h

/-! ### The version that is read -/

theorem readText_eq_ok_iff {source : Source} {node : Located} {text : String} :
    readText source node = .ok text ↔ ∃ stop, node = .scalar (.ok (.string text)) stop := by
  constructor
  · intro h
    unfold readText at h
    split at h
    · rename_i stop
      cases h
      exact ⟨stop, rfl⟩
    · cases h
  · rintro ⟨stop, rfl⟩
    rfl

theorem readText_ofJson_eq_ok_iff {value : Json} {text : String} :
    readText .value (.ofJson value) = .ok text ↔ value = .string text := by
  cases value <;> simp [Located.ofJson, readText]

/-- The version that is read from an object is the value under its key. -/
theorem get?_of_readDocument {fields : List (String × Json)} {document : Document}
    (h : readDocument .value (.ofJson (.object fields)) = .ok document) :
    (Json.object fields).get? "schema_version" = some (.string document.version) := by
  rw [Located.ofJson, Located.ofJsonEntries_eq_map] at h
  obtain ⟨⟨entry, hentry, hname, hread⟩, -⟩ := entries_of_readDocument h
  have honce := (givenOnce_of_readDocument h).1
  obtain ⟨⟨name, value⟩, hfield, rfl⟩ := List.mem_map.1 hentry
  obtain rfl : name = "schema_version" := Except.ok.inj hname
  obtain ⟨first, hfirst⟩ := Table.exists_find?_eq_some (Table.mem_names_iff.2 ⟨value, hfield⟩)
  -- the entry that is looked up and the one that is read are the same
  have hsame := honce.eq (List.mem_map_of_mem (Table.mem_of_find?_eq_some hfirst)) hentry rfl rfl
  have hnode : Located.ofJson first = Located.ofJson value := congrArg Prod.snd hsame
  rw [Json.get?, hfirst, readText_ofJson_eq_ok_iff.1
    ((congrArg (readText .value) hnode).trans hread)]

/-- What no slot changes, reading the values of a list leaves as it is. -/
theorem readValues_keeps {σ γ : Type} {source : Source} {slots : List (Slot σ)}
    {children : List Child} {parts result : σ}
    (h : Shape.readValues source slots children parts = .ok result) (get : σ → γ)
    (hkeep : ∀ slot ∈ slots, ∀ child fill, slot.read child = .ok fill →
      ∀ parts, get (fill parts) = get parts) :
    get result = get parts := by
  induction slots generalizing children parts with
  | nil => cases h; rfl
  | cons slot slots ih =>
    cases children with
    | nil => cases h; rfl
    | cons child children =>
      simp only [Shape.readValues, bind_eq_ok_iff, mapError_eq_ok_iff] at h
      obtain ⟨fill, hfill, h⟩ := h
      obtain ⟨hslot, hslots⟩ := List.forall_mem_cons.1 hkeep
      rw [ih h hslots, hslot child fill hfill parts]

/-- The version that is read from a list is its first value. -/
theorem exists_items_of_readDocument {items : List Json} {document : Document}
    (h : readDocument .value (.ofJson (.array items)) = .ok document) :
    ∃ rest, items = .string document.version :: rest := by
  simp only [Located.ofJson, readDocument, Shape.read, Shape.ofList, bind_eq_ok_iff,
    mapError_eq_ok_iff, readChildren_eq_map, Located.ofJsonItems_eq_map] at h
  obtain ⟨-, -, parts, hparts, -, -, hbuild⟩ := h
  obtain ⟨hversion, -⟩ := parts_of_build hbuild
  cases items with
  | nil => cases hparts; cases hversion
  | cons item rest =>
    simp only [DocumentParts.shape, List.map_cons, Shape.readValues, bind_eq_ok_iff,
      mapError_eq_ok_iff] at hparts
    obtain ⟨fill, hfill, hparts⟩ := hparts
    obtain ⟨first, hfirst, rfl⟩ := map_eq_ok_iff.1 hfill
    -- the slots after the first one leave the version as it is
    have hkept := readValues_keeps hparts DocumentParts.version
      (List.forall_mem_cons.2 ⟨Slot.keeps_of fun _ _ ↦ rfl,
        List.forall_mem_cons.2 ⟨Slot.keeps_of fun _ _ ↦ rfl,
        List.forall_mem_singleton.2 (Slot.keeps_of fun _ _ ↦ rfl)⟩⟩)
    obtain rfl : document.version = first := Option.some.inj (hversion.symm.trans hkept)
    rw [readText_ofJson_eq_ok_iff.1 hfirst]
    exact ⟨rest, rfl⟩

/-! ### Manifests -/

theorem version_of_check {document : Document} {manifest : Manifest}
    (h : document.check = .ok manifest) : manifest.version = document.version :=
  congrArg Document.version (toDocument_of_check h)

theorem version_of_ofTextFrom {origin : Origin} {text : String} {manifest : Manifest}
    (h : ofTextFrom origin text = .ok manifest) : manifest.version = supportedVersion := by
  obtain ⟨start, stop, entries, raw, stripped, document, -, hentries, hform, hread, hcheck⟩ :=
    exists_document_of_ofTextFrom h
  obtain ⟨⟨entry, hentry, hname, hversion⟩, -⟩ := entries_of_readDocument hread
  obtain ⟨stop, hnode⟩ := readText_eq_ok_iff.1 hversion
  have hjson : entry.2.toJson = .ok (.string document.version) := by rw [hnode]; rfl
  have hget := get?_of_givenOnce hentries (givenOnce_of_readDocument hread).1 hentry hname hjson
  rw [version_of_check hcheck]
  refine version_of_checkForm hform ?_
  rw [get?_strip (by decide), hget, Option.map_some, strip_eq_string_iff.2 rfl]

/-- The document that is read from a plain value, and the version of the manifest with it. -/
theorem exists_document_of_ofJsonWith {validator : Validator} {value : Json} {manifest : Manifest}
    (h : ofJsonWith validator value = .ok manifest) :
    ∃ stripped, checkForm validator value = .ok stripped ∧
      ∃ document, readDocument .value (.ofJson (Replication.strip value)) = .ok document ∧
        manifest.version = document.version := by
  simp only [ofJsonWith, bind_eq_ok_iff, mapError_eq_ok_iff, readingResult, readFromJson] at h
  obtain ⟨stripped, hform, document, hread, hcheck⟩ := h
  rw [(of_checkForm_eq_ok hform).2] at hread
  exact ⟨stripped, hform, document, hread, version_of_check hcheck⟩

/-- From an object that a validator accepts, the version that was looked up is read. -/
theorem version_of_ofJsonWith_object {validator : Validator} {fields : List (String × Json)}
    {manifest : Manifest} (h : ofJsonWith validator (.object fields) = .ok manifest) :
    manifest.version = supportedVersion := by
  obtain ⟨stripped, hform, document, hread, hversion⟩ := exists_document_of_ofJsonWith h
  rw [hversion]
  rw [Replication.strip] at hread
  exact version_of_checkForm hform (get?_of_readDocument hread)

theorem exists_items_of_ofJsonWith {validator : Validator} {items : List Json} {manifest : Manifest}
    (h : ofJsonWith validator (.array items) = .ok manifest) :
    ∃ rest, items = .string manifest.version :: rest := by
  obtain ⟨stripped, -, document, hread, hversion⟩ := exists_document_of_ofJsonWith h
  rw [Replication.strip] at hread
  obtain ⟨rest, hrest⟩ := exists_items_of_readDocument hread
  cases items with
  | nil => cases hrest
  | cons item items =>
    rw [Replication.stripItems] at hrest
    rw [hversion, strip_eq_string_iff.1 (List.cons.inj hrest).1]
    exact ⟨items, rfl⟩

/-- A value from which a manifest comes is an object or a list. -/
theorem version_of_ofJsonWith {validator : Validator} {value : Json} {manifest : Manifest}
    (h : ofJsonWith validator value = .ok manifest) :
    manifest.version = supportedVersion ∨
      ∃ rest, value = .array (.string manifest.version :: rest) := by
  cases value with
  | object fields => exact .inl (version_of_ofJsonWith_object h)
  | array items =>
    obtain ⟨rest, rfl⟩ := exists_items_of_ofJsonWith h
    exact .inr ⟨rest, rfl⟩
  | _ =>
    obtain ⟨-, -, document, hread, -⟩ := exists_document_of_ofJsonWith h
    simp [Replication.strip, Located.ofJson, readDocument, Shape.read] at hread

/-- Which versions get through. A text and a value with the form of a manifest give the supported
version only. Where the form is left to a validator, the version is another one exactly if the value
is a list that starts with it: nothing is looked up in a list. A validator that accepts everything
lets every version through this way. -/
theorem version_eq_supported_iff (origin : Origin) (text : String) (validator : Validator)
    (value : Json) (version : String) :
    (∀ manifest, ofTextFrom origin text = .ok manifest → manifest.version = "wasm-abi/1") ∧
      (∀ manifest, ofJson value = .ok manifest → manifest.version = "wasm-abi/1") ∧
      (∀ manifest, ofJsonWith validator value = .ok manifest →
        (manifest.version = "wasm-abi/1" ↔
          ∀ first items, value = .array (.string first :: items) → first = "wasm-abi/1")) ∧
      ofJsonWith (fun _ ↦ []) (.array [.string version, .object [], .array [], .array []]) =
        .ok ⟨version, [], [], []⟩ := by
  refine ⟨fun _ ↦ version_of_ofTextFrom, fun manifest h ↦ ?_, fun manifest h ↦ ⟨?_,
    fun hall ↦ ?_⟩, rfl⟩
  · obtain ⟨stripped, hform, -⟩ := exists_document_of_ofJsonWith h
    obtain ⟨fields, rfl⟩ := exists_object_of_violations (of_checkForm_eq_ok hform).1
    exact version_of_ofJsonWith_object h
  · rintro hversion first items rfl
    obtain ⟨rest, hrest⟩ := exists_items_of_ofJsonWith h
    cases hrest
    exact hversion
  · obtain hversion | ⟨rest, hvalue⟩ := version_of_ofJsonWith h
    · exact hversion
    · exact hall manifest.version rest hvalue

/-- A text whose version stands under a key that is written with an escape, after the tables. -/
def escapedVersionText : String :=
  "\x7b\"types\":\x7b\x7d,\"methods\":[],\"events\":[],\"schema\\u005fversion\":\"wasm-abi/1\"\x7d"

theorem ofTextFrom_escapedVersionText (origin : Origin) :
    ofTextFrom origin escapedVersionText = .ok ⟨"wasm-abi/1", [], [], []⟩ := by
  have hvalue : Json.ofText escapedVersionText.toList =
      .ok (.object [("types", .object []), ("methods", .array []),
      ("events", .array []), ("schema_version", .string "wasm-abi/1")]) :=
    toOption_eq_some_iff.1 (by decide +kernel)
  have hread : readFromText readDocument escapedVersionText.toList =
      .ok ⟨"wasm-abi/1", [], [], []⟩ :=
    toOption_eq_some_iff.1 (by decide +kernel)
  exact ofTextFrom_of_read hvalue rfl hread origin

/-- The document as a list, with a version that is supported. -/
def listedVersion : Json :=
  .array [.string "wasm-abi/1", .object [], .array [], .array []]

theorem version_eq_supported_escaped :
    ∃ manifest, ofText escapedVersionText = .ok manifest ∧
      ofJsonWith (fun _ ↦ []) listedVersion = .ok manifest ∧
      manifest.version = "wasm-abi/1" ∧
      ∀ first items, listedVersion = .array (.string first :: items) → first = "wasm-abi/1" := by
  have htext : ofText escapedVersionText = .ok ⟨"wasm-abi/1", [], [], []⟩ :=
    ofTextFrom_escapedVersionText .input
  have hlisted : ofJsonWith (fun _ ↦ []) listedVersion = .ok ⟨"wasm-abi/1", [], [], []⟩ := rfl
  obtain ⟨hof, -, hwith, -⟩ :=
    version_eq_supported_iff .input escapedVersionText (fun _ ↦ []) listedVersion "wasm-abi/1"
  have hversion := hof _ htext
  exact ⟨_, htext, hlisted, hversion, (hwith _ hlisted).1 hversion⟩

/-- The document as a list, with a version that is not supported. -/
theorem listed_version_kept :
    ofJsonWith (fun _ ↦ []) (.array [.string "wasm-abi/2", .object [], .array [], .array []]) =
        .ok ⟨"wasm-abi/2", [], [], []⟩ ∧
      "wasm-abi/2" ≠ supportedVersion :=
  ⟨rfl, by decide⟩

end AbiBindings.Manifest
