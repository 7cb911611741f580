import AbiBindings.Proofs.Manifest.KnownKeys

/-!
# Repeated names in the type table of a text

Version and form of a text are checked on its plain value, where a repeated key has its last value
only. What the key had before is seen by nobody there, whatever it is. The table is then read from
the tree of the text, entry by entry, so the document has every key of it (`names_of_readDocument`),
and a document with a repeated name does not pass its checks.
-/

namespace AbiBindings.Manifest

open Json

/-- The keys of the type table as they stand in the tree of a document, for each table that the tree
has. -/
def typeKeys : Located → List (List String)
  | .object _ _ entries _ => entries.filterMap fun entry ↦
    match entry.1.name, entry.2 with
    | .ok "types", .object _ _ types _ => some (Located.keyNames types)
    | _, _ => none
  | _ => []

theorem mem_typeKeys_iff {node : Located} {keys : List String} :
    keys ∈ typeKeys node ↔
      ∃ start tooDeep entries ending, node = .object start tooDeep entries ending ∧
        ∃ entry ∈ entries, entry.1.name = .ok "types" ∧
          ∃ start tooDeep types ending, entry.2 = .object start tooDeep types ending ∧
            Located.keyNames types = keys := by
  constructor
  · intro h
    cases node with
    | object start tooDeep entries ending =>
      obtain ⟨entry, hentry, hkeys⟩ := List.mem_filterMap.1 h
      split at hkeys
      · rename_i hname hnode
        exact ⟨start, tooDeep, entries, ending, rfl, entry, hentry, hname, _, _, _, _, hnode,
          Option.some.inj hkeys⟩
      · cases hkeys
    | _ => cases h
  · rintro ⟨start, tooDeep, entries, ending, rfl, entry, hentry, hname, _, _, types, _, hnode, rfl⟩
    refine List.mem_filterMap.2 ⟨entry, hentry, ?_⟩
    rw [hname, hnode]
    rfl

/-- A document that is read has a name for each key of the type table. There may be only one
table. -/
theorem names_of_readDocument {source : Source} {node : Located} {document : Document}
    {keys : List String} (h : readDocument source node = .ok document)
    (hkeys : keys ∈ typeKeys node) : document.namesOf .type = keys := by
  obtain ⟨start, tooDeep, entries, ending, rfl, entry, hentry, hname, hnode⟩ :=
    mem_typeKeys_iff.1 hkeys
  obtain ⟨-, other, hother, hotherName, htable⟩ := entries_of_readDocument h
  obtain rfl : other = entry := (givenOnce_of_readDocument h).2.eq hother hentry hotherName hname
  obtain ⟨_, _, types, _, htypes, rfl⟩ := hnode
  obtain ⟨_, _, types', _, htypes', hnames⟩ := names_of_readTypeTable htable
  obtain rfl : types = types' := by
    rw [htypes] at htypes'
    cases htypes'
    rfl
  exact hnames.symm

/-- A text whose type table repeats a key is refused, whatever is under the keys. If nothing else is
wrong with it, the error lists exactly the keys that are repeated, each once, in the order in which
they are. -/
theorem ofTextFrom_repeated_types {text : String} {keys : List String}
    (hkeys : keys ∈ typeKeys (Located.ofText text.toList).value) (hrepeated : ¬ keys.Nodup)
    (origin : Origin) :
    (∃ error, ofTextFrom origin text = .error error) ∧
      ∀ value stripped document, Json.ofText text.toList = .ok value →
        checkForm Schema.violations value = .ok stripped →
        readFromText readDocument text.toList = .ok document →
        document.ReferencesResolve → document.KeysAreStrings → (document.namesOf .method).Nodup →
        (document.namesOf .event).Nodup →
        ∃ found, ofTextFrom origin text = .error (.duplicateNames .type found) ∧
          Document.ListsRepeated keys found := by
  constructor
  · cases hmanifest : ofTextFrom origin text with
    | error error => exact ⟨error, rfl⟩
    | ok manifest =>
      obtain ⟨start, stop, entries, -, -, document, hnode, -, -, hread, hcheck⟩ :=
        exists_document_of_ofTextFrom hmanifest
      rw [hnode] at hkeys
      have hnodup := (Document.check_eq_ok_iff.1 hcheck).2.2.1 .type
      rw [names_of_readDocument hread hkeys] at hnodup
      exact absurd hnodup hrepeated
  · intro value stripped document hvalue hform hread hreferences hstrings hmethods hevents
    have hnames := names_of_readDocument (readDocument_of_readFromText hread) hkeys
    have hlists : Document.ListsRepeated keys (Document.repeated keys) :=
      Document.listsRepeated_iff.2 (Document.listsInOrder_repeated keys)
    have hne : Document.repeated keys ≠ [] :=
      fun hnil ↦ hrepeated (Document.repeated_eq_nil_iff.1 hnil)
    have hcheck : document.check = .error (.duplicateNames .type (Document.repeated keys)) :=
      Document.check_eq_error_iff.2 (.typeNames hreferences hstrings hmethods hevents hne
        (hnames ▸ hlists))
    exact ⟨Document.repeated keys, (ofTextFrom_of_read hvalue hform hread origin).trans
      hcheck, hlists⟩

/-- A text with two repeated types. What one of them was first has not the form of a type, and the
other one is named like a replication field, so that no check of the form sees it. -/
def repeatedTypesText : String :=
  "\x7b\"schema_version\":\"wasm-abi/1\",\"types\":\x7b\"A\":\x7b\"kind\":\"bytes\",\"x\":0\x7d," ++
    "\"state_root\":\x7b\"kind\":\"bytes\"\x7d,\"state_root\":\x7b\"kind\":\"bytes\"\x7d," ++
    "\"A\":\x7b\"kind\":\"bytes\"\x7d\x7d,\"methods\":[],\"events\":[]\x7d"

/-- The plain value of that text. -/
def repeatedTypesValue : Json :=
  .object [("schema_version", .string "wasm-abi/1"),
    ("types", .object [("A", .object [("kind", .string "bytes")]),
      ("state_root", .object [("kind", .string "bytes")])]),
    ("methods", .array []), ("events", .array [])]

/-- The document of that text. -/
def repeatedTypesDocument : Document :=
  ⟨"wasm-abi/1", [("A", .bytes .any), ("state_root", .bytes .any), ("state_root", .bytes .any),
    ("A", .bytes .any)], [], []⟩

theorem ofTextFrom_repeated_types_hidden :
    repeatedTypesDocument.namesOf .type ∈ typeKeys (Located.ofText repeatedTypesText.toList).value ∧
      Json.ofText repeatedTypesText.toList = .ok repeatedTypesValue ∧
      checkForm Schema.violations repeatedTypesValue = .ok (Replication.strip repeatedTypesValue) ∧
      readFromText readDocument repeatedTypesText.toList = .ok repeatedTypesDocument ∧
      ∃ found, ofText repeatedTypesText = .error (.duplicateNames .type found) ∧
        Document.ListsRepeated (repeatedTypesDocument.namesOf .type) found := by
  have hkeys : repeatedTypesDocument.namesOf .type ∈ typeKeys
      (Located.ofText repeatedTypesText.toList).value := by
    have htypes : typeKeys (Located.ofText repeatedTypesText.toList).value =
        [["A", "state_root", "state_root", "A"]] := by decide +kernel
    rw [htypes]
    exact List.mem_singleton_self _
  have hvalue : Json.ofText repeatedTypesText.toList = .ok repeatedTypesValue :=
    toOption_eq_some_iff.1 (by decide +kernel)
  have hform : checkForm Schema.violations repeatedTypesValue =
      .ok (Replication.strip repeatedTypesValue) := rfl
  have hread : readFromText readDocument repeatedTypesText.toList = .ok repeatedTypesDocument :=
    toOption_eq_some_iff.1 (by decide +kernel)
  have hrepeated : ¬ (repeatedTypesDocument.namesOf .type).Nodup := by decide
  refine ⟨hkeys, hvalue, hform, hread, ?_⟩
  exact (ofTextFrom_repeated_types hkeys hrepeated .input).2 _ _ _ hvalue hform hread
    (Document.checkReferences_eq_ok_iff.1 rfl) (Document.checkMapKeys_eq_ok_iff.1 rfl)
    List.nodup_nil List.nodup_nil

end AbiBindings.Manifest
