import AbiBindings.Proofs.Manifest.Obtained

/-!
# A document and its manifest are looked up alike

The checks look up a name in the entries of a document and take the first that has it. The manifest
has a table that the entries build, in which the last one counts. In between stands the check of the
names: once no name is repeated, first and last are the same, and the manifest answers every lookup
as the document did (`lookups_of_check`). Methods and events are kept as lists, and there too each
is found under its own name.
-/

namespace AbiBindings

/-- Under distinct keys, looking for the key of an item finds that item. -/
theorem find?_key_eq_some {α : Type} {key : α → String} {items : List α}
    (hnd : (items.map key).Nodup) {item : α} (h : item ∈ items) :
    items.find? (fun other ↦ key other = key item) = some item := by
  have hsome : (items.find? fun other ↦ key other = key item).isSome := by
    rw [List.find?_isSome]
    exact ⟨item, h, decide_eq_true rfl⟩
  obtain ⟨found, hfound⟩ := Option.isSome_iff_exists.1 hsome
  have hkey : key found = key item := by simpa using List.find?_some hfound
  rw [hfound, List.inj_on_of_nodup_map hnd (List.mem_of_find?_eq_some hfound) h hkey]

namespace Manifest

/-- The table of a manifest gives the last entry of a name. -/
theorem typeDef?_ofDocument (document : Document) (name : String) :
    (ofDocument document).typeDef? name = Table.find? name document.types.reverse :=
  Table.find?_ofEntries name document.types

/-- A document that passes the checks is kept as it is: the manifest has its version, its types in
order, its methods and its events. A type is looked up in the manifest as it was in the document,
whatever the name, and each method and each event is found under its name. -/
theorem lookups_of_check {document : Document} {manifest : Manifest}
    (h : document.check = .ok manifest) :
    manifest.version = document.version ∧ manifest.types = document.types ∧
      manifest.methods = document.methods ∧ manifest.events = document.events ∧
      (∀ name, manifest.typeDef? name = Table.find? name document.types) ∧
      (∀ method ∈ manifest.methods, manifest.method? method.name = some method) ∧
      ∀ event ∈ manifest.events, manifest.event? event.name = some event := by
  obtain ⟨-, -, hnames, rfl⟩ := Document.check_eq_ok_iff.1 h
  have htypes : (Table.names document.types).Nodup := hnames .type
  refine ⟨rfl, Table.ofEntries_eq_self htypes, rfl, rfl,
    fun name ↦ ?_, fun method hmethod ↦ ?_, fun event hevent ↦ ?_⟩
  · calc (ofDocument document).typeDef? name
        = Table.find? name document.types.reverse := typeDef?_ofDocument document name
      _ = Table.find? name document.types :=
          (Table.find?_perm (List.reverse_perm document.types).symm htypes name).symm
  · exact find?_key_eq_some (hnames .method) hmethod
  · exact find?_key_eq_some (hnames .event) hevent

/-- A document whose types, method and event share their names, with a map that has an alias for its
key. -/
def orchard : Document where
  version := "wasm-abi/1"
  types :=
    [("row", .aliasOf (.map (.reference "label") (.reference "tree"))),
      ("tree", .variant [⟨"bare", none, none⟩,
        ⟨"grafted", some "", some (.list (.reference "tree"))⟩]),
      ("label", .aliasOf (.scalar .string))]
  methods := [⟨"tree", [⟨"row", .reference "row", true⟩], none, false, [⟨"label", none⟩]⟩,
    ⟨"row", [], some (.reference "tree"), true, []⟩]
  events := [⟨"tree", some (.reference "label")⟩, ⟨"label", none⟩]

theorem lookups_of_check_orchard :
    ∃ manifest, orchard.check = .ok manifest ∧
      manifest.version = orchard.version ∧ manifest.types = orchard.types ∧
      manifest.methods = orchard.methods ∧ manifest.events = orchard.events ∧
      (∀ name, manifest.typeDef? name = Table.find? name orchard.types) ∧
      (∀ method ∈ manifest.methods, manifest.method? method.name = some method) ∧
      ∀ event ∈ manifest.events, manifest.event? event.name = some event := by
  obtain ⟨manifest, h⟩ : ∃ manifest, orchard.check = .ok manifest := ⟨_, rfl⟩
  exact ⟨manifest, h, lookups_of_check h⟩

end Manifest

end AbiBindings
