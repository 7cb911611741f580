import AbiBindings.Proofs.Manifest.Equality
import AbiBindings.Proofs.Manifest.Obtained
import AbiBindings.Proofs.Manifest.ReadAlike

/-!
# Values and texts as manifests

A text is checked as the plain value that it has, without replication fields, but it is read as it
stands. Apart from its type table this makes no difference: the tree of a text without repeated keys
and the value without replication fields are alike (`alike_strip`), so they are read alike. The keys
of the type table are names of types, however. One that is named like a replication field is left
out of the value and stays in the text.

`ofText_sameOutcome_ofJson` makes this exact. With no such name in the type table both entry points
have the same outcome; with one they differ whenever one of them has a manifest.
-/

namespace AbiBindings.Manifest

open Json

/-! ### Trees without replication fields -/

theorem stripItems_eq_map (items : List Json) :
    Replication.stripItems items = items.map Replication.strip := by
  induction items with
  | nil => rfl
  | cons item items ih => rw [Replication.stripItems, List.map_cons, ih]

theorem mem_stripEntries {name : String} {value : Json} {fields : List (String × Json)}
    (h : (name, value) ∈ Replication.stripEntries fields) :
    Replication.isField name = false ∧ ∃ w, value = Replication.strip w := by
  induction fields with
  | nil => cases h
  | cons field fields ih =>
    obtain ⟨n, w⟩ := field
    rw [Replication.stripEntries] at h
    split at h
    · exact ih h
    · rename_i hname
      obtain heq | h := List.mem_cons.1 h
      · obtain ⟨rfl, rfl⟩ := Prod.mk.inj heq
        exact ⟨Bool.eq_false_iff.2 hname, w, rfl⟩
      · exact ih h

/-- The entries of a tree and those of its plain value without replication fields are alike, if
their values are. -/
theorem entriesAlike_strip {entries : List (Key × Located)} {fields : List (String × Json)}
    (h : List.Forall₂ Located.IsEntry entries fields)
    (hnodes : ∀ entry ∈ entries, ∀ json, entry.2.toJson = .ok json →
      Alike entry.2 (.ofJson (Replication.strip json))) :
    EntriesAlike (fun _ ↦ Alike) (·.break? = none) entries
      (Located.ofJsonEntries (Replication.stripEntries fields)) := by
  induction h with
  | nil => exact .nil
  | @cons entry field entries fields hentry _ ih =>
    obtain ⟨⟨key, stop⟩, node⟩ := entry
    obtain ⟨name, json⟩ := field
    obtain ⟨hname, hjson⟩ := hentry
    have hrest := ih fun other hother ↦ hnodes other (List.mem_cons_of_mem _ hother)
    obtain rfl : key = .ok name := hname
    rw [Replication.stripEntries]
    split
    · rename_i hfield
      exact .drop hfield (Located.break?_eq_none_of_toJson hjson) hrest
    · exact .keep (hnodes _ List.mem_cons_self json hjson) hrest

/-- A tree without repeated keys and its plain value without replication fields are alike. -/
theorem alike_strip {node : Located} {json : Json} (h : node.toJson = .ok json)
    (hkeys : node.distinctKeys = true) : Alike node (.ofJson (Replication.strip json)) := by
  induction node generalizing json with
  | scalar value stop =>
    obtain ⟨s, rfl, rfl⟩ := Located.toJson_scalar_eq_ok_iff.1 h
    cases s <;> exact .scalar
  | list start tooDeep items ending ih =>
    obtain ⟨rfl, ⟨stop, rfl⟩, values, hvalues, rfl⟩ := Located.toJson_list_eq_ok_iff.1 h
    rw [Replication.strip, Located.ofJson, stripItems_eq_map,
      Located.ofJsonItems_eq_map, List.map_map]
    refine .list (List.forall₂_map_right_iff.2 ?_)
    have hitems : ∀ item ∈ items, ∀ json, item.toJson = .ok json →
        Alike item (.ofJson (Replication.strip json)) :=
      fun item hitem _ hjson ↦ ih item hitem hjson
        (Located.distinctKeys_list_iff.1 hkeys item hitem)
    exact ((List.forall₂_and_left _ _).2 ⟨hitems, hvalues⟩).imp fun _ value hitem ↦
      hitem.1 value hitem.2
  | object start tooDeep entries ending ih =>
    obtain ⟨rfl, ⟨stop, rfl⟩, fields, hfields, rfl⟩ := Located.toJson_object_eq_ok_iff.1 h
    obtain ⟨hnodup, hentries⟩ := Located.distinctKeys_object_iff.1 hkeys
    rw [Located.keyNames_eq_names hfields] at hnodup
    rw [Table.ofEntries_eq_self hnodup, Replication.strip, Located.ofJson]
    exact .object (entriesAlike_strip hfields fun entry hentry _ hjson ↦
      ih entry hentry hjson (hentries entry hentry))
  | broken cut => cases h

/-! ### Type tables -/

/-- The keys of an object; other values have none. -/
def keysOf : Json → List String
  | .object fields => Table.names fields
  | _ => []

/-- The names in the type table of a value. -/
def typeNames (value : Json) : List String :=
  ((value.get? "types").map keysOf).getD []

theorem keepsAll_iff_of_toJson {node : Located} {json : Json} (h : node.toJson = .ok json)
    (hkeys : node.distinctKeys = true) :
    KeepsAll node ↔ ∀ name ∈ keysOf json, Replication.isField name = false := by
  cases json with
  | object fields =>
    obtain ⟨start, stop, entries, rfl, hfields, -, -⟩ := Located.entries_of_toJson h hkeys
    rw [KeepsAll, keysOf, Located.keyNames_eq_names hfields]
  | _ =>
    cases node with
    | object start tooDeep entries ending =>
      obtain ⟨-, -, fields, -, hfields⟩ := Located.toJson_object_eq_ok_iff.1 h
      cases hfields
    | _ => simp [KeepsAll, keysOf]

/-- The tree of the type table has the names of the types as its keys. -/
theorem keepsAll_iff_typeNames {entries : List (Key × Located)} {fields : List (String × Json)}
    (h : List.Forall₂ Located.IsEntry entries fields) (hnodup : (Table.names fields).Nodup)
    {entry : Key × Located} (hentry : entry ∈ entries) (hname : entry.1.name = .ok "types")
    (hkeys : entry.2.distinctKeys = true) :
    KeepsAll entry.2 ↔ ∀ name ∈ typeNames (.object fields), Replication.isField name = false := by
  obtain ⟨⟨name, json⟩, hfield, hok, hjson⟩ := exists_of_forall₂ h hentry
  obtain rfl : name = "types" := Except.ok.inj (hok.symm.trans hname)
  have htypes : typeNames (.object fields) = keysOf json := by
    rw [typeNames, Json.get?, (Table.find?_eq_some_iff hnodup).2 hfield]
    rfl
  rw [htypes, keepsAll_iff_of_toJson hjson hkeys]

theorem keepsAll_strip (value : Json) : KeepsAll (.ofJson (Replication.strip value)) := by
  cases value with
  | object fields =>
    rw [Replication.strip, Located.ofJson, KeepsAll, Located.ofJsonEntries_eq_map]
    intro name hname
    obtain ⟨entry, hentry, hok⟩ := List.mem_filterMap.1 hname
    obtain ⟨⟨n, w⟩, hfield, rfl⟩ := List.mem_map.1 hentry
    obtain rfl : n = name := Option.some.inj hok
    exact (mem_stripEntries hfield).1
  | null => trivial
  | bool b => trivial
  | number n => trivial
  | string s => trivial
  | array items => trivial

theorem keyNames_of_readTypeEntries {source : Source} {entries : List (Key × Located)}
    {types : List (String × TypeDef)} (h : readTypeEntries source entries = .ok types) :
    Located.keyNames entries = Table.names types := by
  induction entries generalizing types with
  | nil => cases h; rfl
  | cons entry entries ih =>
    obtain ⟨⟨key, stop⟩, node⟩ := entry
    simp only [readTypeEntries, bind_eq_ok_iff, mapError_eq_ok_iff] at h
    obtain ⟨name, rfl, typeDef, -, rest, hrest, h⟩ := h
    cases h
    exact congrArg (name :: ·) (ih hrest)

/-- The names of a type table are the keys of its tree. -/
theorem names_of_readTypeTable {source : Source} {node : Located} {types : List (String × TypeDef)}
    (h : readTypeTable source node = .ok types) :
    ∃ start tooDeep entries ending, node = .object start tooDeep entries ending ∧
      Located.keyNames entries = Table.names types := by
  cases node with
  | object start tooDeep entries ending =>
    simp only [readTypeTable, bind_eq_ok_iff] at h
    obtain ⟨-, -, read, hread, -, -, h⟩ := h
    cases h
    exact ⟨start, tooDeep, entries, ending, rfl, keyNames_of_readTypeEntries hread⟩
  | scalar value stop => cases h
  | list start tooDeep items ending => cases h
  | broken cut => cases h

theorem keepsAll_iff_of_readTypeTable {source : Source} {node : Located}
    {types : List (String × TypeDef)} (h : readTypeTable source node = .ok types) :
    KeepsAll node ↔ ∀ name ∈ Table.names types, Replication.isField name = false := by
  obtain ⟨start, tooDeep, entries, ending, rfl, hnames⟩ := names_of_readTypeTable h
  rw [KeepsAll, hnames]

/-- What filling a slot from an entry preserves, reading all entries preserves. -/
theorem readEntries_preserves {σ : Type} {source : Source} {slots : List (Slot σ)} {Q : σ → Prop}
    {entries : List (Key × Child)} {parts result : σ}
    (hfill : ∀ entry ∈ entries, ∀ slot ∈ slots, entry.1.name = .ok slot.key → ∀ fill,
      slot.read entry.2 = .ok fill → ∀ parts, Q parts → Q (fill parts))
    (h : Shape.readEntries source slots entries parts = .ok result) (hparts : Q parts) :
      Q result := by
  induction entries generalizing parts with
  | nil => cases h; exact hparts
  | cons entry entries ih =>
    obtain ⟨⟨key, stop⟩, child⟩ := entry
    have hrest {parts : σ} (h : Shape.readEntries source slots entries parts = .ok result) :
        Q parts → Q result :=
      ih (fun other hother ↦ hfill other (List.mem_cons_of_mem _ hother)) h
    simp only [Shape.readEntries, bind_eq_ok_iff, mapError_eq_ok_iff] at h
    obtain ⟨name, rfl, h⟩ := h
    split at h
    · obtain ⟨-, -, h⟩ := bind_eq_ok_iff.1 h
      exact hrest h hparts
    · rename_i slot hslot
      split at h
      · cases h
      · simp only [bind_eq_ok_iff, mapError_eq_ok_iff] at h
        obtain ⟨fill, hread, h⟩ := h
        have hkey : slot.key = name := by simpa using List.find?_some hslot
        exact hrest h (hfill _ List.mem_cons_self slot (List.mem_of_find?_eq_some hslot)
          (congrArg Except.ok hkey.symm) fill hread parts hparts)

theorem Slot.keeps_of {σ β γ : Type} {key : String} {get : σ → Option β} {set : β → σ → σ}
    {read : Child → Except ReadError β} {other : σ → γ}
    (h : ∀ b parts, other (set b parts) = other parts) (child : Child) (fill : σ → σ)
    (hfill : (Slot.of key get set read).read child = .ok fill) (parts : σ) :
    other (fill parts) = other parts := by
  obtain ⟨b, -, rfl⟩ := map_eq_ok_iff.1 hfill
  exact h b parts

/-- What a slot has in the end was read from an entry with its key, if no other slot changes it. -/
theorem exists_entry_of_readEntries {σ β : Type} {source : Source} {slots : List (Slot σ)}
    {key : String} {get : σ → Option β} {set : β → σ → σ} {read : Child → Except ReadError β}
    {entries : List (Key × Child)} {parts result : σ}
    (h : Shape.readEntries source slots entries parts = .ok result) {b : β}
    (hb : get result = some b) (hparts : get parts = none)
    (hslots : ∀ slot ∈ slots, slot = .of key get set read ∨
      ∀ child fill, slot.read child = .ok fill → ∀ parts, get (fill parts) = get parts)
    (hset : ∀ b parts, get (set b parts) = some b) :
    ∃ entry ∈ entries, entry.1.name = .ok key ∧ read entry.2 = .ok b := by
  have hfrom : ∀ b, get result = some b → ∃ entry ∈ entries, entry.1.name = .ok key ∧
      read entry.2 = .ok b := by
    refine readEntries_preserves (Q := fun parts ↦ ∀ b, get parts = some b →
      ∃ entry ∈ entries, entry.1.name = .ok key ∧ read entry.2 = .ok b) ?_ h (by simp [hparts])
    intro entry hentry slot hslot hname fill hread parts ih b hb
    obtain rfl | hother := hslots slot hslot
    · obtain ⟨value, hvalue, rfl⟩ := map_eq_ok_iff.1 hread
      obtain rfl := Option.some.inj ((hset value parts).symm.trans hb)
      exact ⟨entry, hentry, hname, hvalue⟩
    · exact ih b (hother entry.2 fill hread parts ▸ hb)
  exact hfrom b hb

theorem require_eq_ok_iff {β : Type} {problem : Problem} {value : Option β} {b : β} :
    require problem value = .ok b ↔ value = some b := by
  cases value <;> simp [require]

theorem parts_of_build {source : Source} {absent : Nat → String → Problem} {parts : DocumentParts}
    {document : Document} (h : (DocumentParts.shape source).build absent parts = .ok document) :
    parts.version = some document.version ∧ parts.types = some document.types := by
  simp only [DocumentParts.shape, bind_eq_ok_iff, require_eq_ok_iff] at h
  obtain ⟨version, hversion, types, htypes, methods, -, events, -, hdocument⟩ := h
  cases hdocument
  exact ⟨hversion, htypes⟩

/-- The version and the type table of a document that was read are the values under their keys. -/
theorem entries_of_readDocument {source : Source} {start : Nat} {tooDeep : Bool}
    {entries : List (Key × Located)} {ending : Ending} {document : Document}
    (h : readDocument source (.object start tooDeep entries ending) = .ok document) :
    (∃ entry ∈ entries, entry.1.name = .ok "schema_version" ∧
      readText source entry.2 = .ok document.version) ∧
      ∃ entry ∈ entries, entry.1.name = .ok "types" ∧
      readTypeTable source entry.2 = .ok document.types := by
  simp only [readDocument, Shape.read, Shape.ofObject, bind_eq_ok_iff, mapError_eq_ok_iff,
    readChildEntries_eq_map] at h
  obtain ⟨-, -, parts, hparts, -, -, hbuild⟩ := h
  obtain ⟨hversion, htypes⟩ := parts_of_build hbuild
  constructor
  · obtain ⟨entry, hentry, hname, hread⟩ := exists_entry_of_readEntries hparts hversion rfl
      (List.forall_mem_cons.2 ⟨.inl rfl, List.forall_mem_cons.2 ⟨.inr (Slot.keeps_of fun _ _ ↦ rfl),
        List.forall_mem_cons.2 ⟨.inr (Slot.keeps_of fun _ _ ↦ rfl),
          List.forall_mem_singleton.2 (.inr (Slot.keeps_of fun _ _ ↦ rfl))⟩⟩⟩) fun _ _ ↦ rfl
    obtain ⟨located, hlocated, rfl⟩ := List.mem_map.1 hentry
    exact ⟨located, hlocated, hname, hread⟩
  · obtain ⟨entry, hentry, hname, hread⟩ := exists_entry_of_readEntries hparts htypes rfl
      (List.forall_mem_cons.2 ⟨.inr (Slot.keeps_of fun _ _ ↦ rfl), List.forall_mem_cons.2 ⟨.inl rfl,
        List.forall_mem_cons.2 ⟨.inr (Slot.keeps_of fun _ _ ↦ rfl),
          List.forall_mem_singleton.2 (.inr (Slot.keeps_of fun _ _ ↦ rfl))⟩⟩⟩) fun _ _ ↦ rfl
    obtain ⟨located, hlocated, rfl⟩ := List.mem_map.1 hentry
    exact ⟨located, hlocated, hname, hread⟩

/-! ### Outcomes -/

/-- Two manifests with the same types, methods and events, or two errors of one kind. The errors are
the same, except that violations may be told in different words. -/
inductive SameOutcome : Except Error Manifest → Except Error Manifest → Prop
  | manifest {m m' : Manifest} (types : m.types = m'.types) (methods : m.methods = m'.methods)
    (events : m.events = m'.events) : SameOutcome (.ok m) (.ok m')
  | error (e : Error) : SameOutcome (.error e) (.error e)
  | invalid (violations violations' : List Violation) :
    SameOutcome (.error (.invalid violations)) (.error (.invalid violations'))

theorem SameOutcome.refl (outcome : Except Error Manifest) : SameOutcome outcome outcome := by
  cases outcome with
  | error e => exact .error e
  | ok m => exact .manifest rfl rfl rfl

/-- If one of the outcomes is a manifest, so is the other one. -/
theorem SameOutcome.exists_manifests {outcome outcome' : Except Error Manifest}
    (h : SameOutcome outcome outcome') {manifest : Manifest}
    (hmanifest : outcome = .ok manifest ∨ outcome' = .ok manifest) :
    ∃ m m', outcome = .ok m ∧ outcome' = .ok m' ∧ m.types = m'.types := by
  cases h with
  | manifest types methods events => exact ⟨_, _, rfl, rfl, types⟩
  | error e => exact hmanifest.elim nofun nofun
  | invalid violations violations' => exact hmanifest.elim nofun nofun

/-- Two readings that give the same document or both fail have the same outcome when they are
checked. -/
theorem sameOutcome_of_toOption {reading reading' : Except ReadError Document}
    (h : reading.toOption = reading'.toOption) (chars chars' : List Char) :
    SameOutcome (readingResult chars reading >>= Document.check)
      (readingResult chars' reading' >>= Document.check) := by
  cases reading with
  | ok document =>
    obtain rfl := toOption_eq_some_iff.1 h.symm
    exact .refl _
  | error e =>
    obtain ⟨e', rfl⟩ := toOption_eq_none_iff.1 h.symm
    exact .invalid _ _

/-! ### The two entry points -/

theorem of_checkForm_eq_ok {validator : Validator} {value stripped : Json}
    (h : checkForm validator value = .ok stripped) :
    validator (Replication.strip value) = [] ∧ stripped = Replication.strip value := by
  cases hviolations : validator (Replication.strip value) with
  | nil =>
    simp only [checkForm, hviolations] at h
    split at h
    · split at h
      · cases h
      · exact ⟨rfl, (Except.ok.inj h).symm⟩
    · exact ⟨rfl, (Except.ok.inj h).symm⟩
  | cons violation violations =>
    simp only [checkForm, hviolations] at h
    split at h
    · split at h <;> cases h
    · cases h

/-- Only an object can have the form of a manifest. -/
theorem exists_object_of_violations {value : Json}
    (h : Schema.violations (Replication.strip value) = []) : ∃ fields, value = .object fields := by
  cases value with
  | object fields => exact ⟨fields, rfl⟩
  | _ =>
    simp [Replication.strip, Schema.violations, Schema.manifest, Schema.object, Schema.wrongType,
      Schema.violation] at h

theorem tree_of_ofText {chars : List Char} {value : Json} (h : Json.ofText chars = .ok value) :
    (Located.ofText chars).value.toJson = .ok value ∧ (Located.ofText chars).trailing = none := by
  simp only [Json.ofText, bind_eq_ok_iff] at h
  obtain ⟨json, hjson, h⟩ := h
  split at h
  · rename_i hnone
    cases h
    exact ⟨hjson, hnone⟩
  · cases h

theorem ofText_eq {text : String} {value : Json} (h : Json.ofText text.toList = .ok value) :
    ofText text = (do
      let _ ← checkForm Schema.violations value
      let document ← readingResult text.toList
        (readDocument (.text text.toList) (Located.ofText text.toList).value)
      document.check) := by
  have hread : readFromText readDocument text.toList =
      readDocument (.text text.toList) (Located.ofText text.toList).value := by
    rw [readFromText, (tree_of_ofText h).2]
    cases readDocument (.text text.toList) (Located.ofText text.toList).value <;> rfl
  simp only [ofText, ofTextFrom, h, hread]
  rfl

/-- The manifest of a value has no type that is named like a replication field. -/
theorem isField_types_of_ofJson {value : Json} {manifest : Manifest}
    (h : ofJson value = .ok manifest) :
    ∀ name ∈ Table.names manifest.types, Replication.isField name = false := by
  simp only [ofJson, ofJsonWith, bind_eq_ok_iff, readingResult, mapError_eq_ok_iff] at h
  obtain ⟨stripped, hform, document, hread, hcheck⟩ := h
  obtain ⟨hviolations, rfl⟩ := of_checkForm_eq_ok hform
  obtain ⟨fields, rfl⟩ := exists_object_of_violations hviolations
  rw [readFromJson, Replication.strip, Located.ofJson, Located.ofJsonEntries_eq_map] at hread
  obtain ⟨-, entry, hentry, -, htable⟩ := entries_of_readDocument hread
  obtain ⟨⟨name, stripped⟩, hfield, rfl⟩ := List.mem_map.1 hentry
  obtain ⟨-, inner, rfl⟩ := mem_stripEntries hfield
  have htypes : manifest.types = document.types :=
    congrArg Document.types (toDocument_of_check hcheck)
  rw [htypes]
  exact (keepsAll_iff_of_readTypeTable htable).1 (keepsAll_strip inner)

section Text

variable {text : String} {value : Json} (hvalue : Json.ofText text.toList = .ok value)
include hvalue

theorem ofText_of_checkForm {error : Error} (h : checkForm Schema.violations value = .error error) :
    ofText text = .error error ∧ ofJson value = .error error := by
  rw [ofText_eq hvalue, ofJson, ofJsonWith, h]
  exact ⟨rfl, rfl⟩

variable (hkeys : (Located.ofText text.toList).value.distinctKeys = true)
include hkeys

/-- Without a type that is named like a replication field, text and value have the same outcome. -/
theorem sameOutcome_ofText (htypes : ∀ name ∈ typeNames value, Replication.isField name = false) :
    SameOutcome (ofText text) (ofJson value) := by
  cases hform : checkForm Schema.violations value with
  | error error =>
    obtain ⟨htext, hjson⟩ := ofText_of_checkForm hvalue hform
    rw [htext, hjson]
    exact .refl _
  | ok stripped =>
    obtain ⟨hviolations, rfl⟩ := of_checkForm_eq_ok hform
    obtain ⟨fields, rfl⟩ := exists_object_of_violations hviolations
    obtain ⟨htree, -⟩ := tree_of_ofText hvalue
    have halike := alike_strip htree hkeys
    obtain ⟨start, stop, entries, hnode, hentries, hnodup, hdistinct⟩ :=
      Located.entries_of_toJson htree hkeys
    have hread : (readDocument (.text text.toList) (Located.ofText text.toList).value).toOption =
        (readDocument .value (.ofJson (Replication.strip (.object fields)))).toOption := by
      rw [hnode, Replication.strip, Located.ofJson] at halike ⊢
      cases halike with
      | object h =>
        refine toOption_readDocument _ _ h (fun entry hentry hname ↦ ?_) _ _ _ _
        exact (keepsAll_iff_typeNames hentries hnodup hentry hname
          (hdistinct entry hentry)).2 htypes
    rw [ofText_eq hvalue, ofJson, ofJsonWith, hform]
    exact sameOutcome_of_toOption hread _ _

/-- The manifest of the text has all types, and that of the value only those that are not named like
a replication field. So if there are manifests and they are the same, no type is named so. -/
theorem isField_of_sameOutcome (hsame : SameOutcome (ofText text) (ofJson value))
    {manifest : Manifest} (hmanifest : ofText text = .ok manifest ∨ ofJson value = .ok manifest) :
    ∀ name ∈ typeNames value, Replication.isField name = false := by
  obtain ⟨ofWhole, ofStripped, htext, hjson, htypes⟩ := hsame.exists_manifests hmanifest
  simp only [ofText_eq hvalue, bind_eq_ok_iff, readingResult, mapError_eq_ok_iff] at htext
  obtain ⟨stripped, hform, document, hread, hcheck⟩ := htext
  obtain ⟨hviolations, rfl⟩ := of_checkForm_eq_ok hform
  obtain ⟨fields, rfl⟩ := exists_object_of_violations hviolations
  obtain ⟨start, stop, entries, hnode, hentries, hnodup, hdistinct⟩ :=
    Located.entries_of_toJson (tree_of_ofText hvalue).1 hkeys
  rw [hnode] at hread
  obtain ⟨-, entry, hentry, hkey, htable⟩ := entries_of_readDocument hread
  -- the names read from the tree of the text are all its keys, so they are those of the value as
  -- well
  have hdocument : document.types = ofStripped.types :=
    (congrArg Document.types (toDocument_of_check hcheck)).symm.trans htypes
  have hkeep : KeepsAll entry.2 := by
    rw [keepsAll_iff_of_readTypeTable htable, hdocument]
    exact isField_types_of_ofJson hjson
  exact (keepsAll_iff_typeNames hentries hnodup hentry hkey (hdistinct entry hentry)).1 hkeep

end Text

/-- A text and its value. If no type is named like a replication field, both have the same outcome.
If one of them has a manifest, they have the same outcome only then. What is refused for its version
or its form is refused alike. -/
theorem ofText_sameOutcome_ofJson {text : String} {value : Json}
    (hvalue : Json.ofText text.toList = .ok value)
    (hkeys : (Located.ofText text.toList).value.distinctKeys = true) :
    ((∀ name ∈ typeNames value, Replication.isField name = false) →
      SameOutcome (ofText text) (ofJson value)) ∧
      (∀ manifest, ofText text = .ok manifest ∨ ofJson value = .ok manifest →
        SameOutcome (ofText text) (ofJson value) →
        ∀ name ∈ typeNames value, Replication.isField name = false) ∧
      ∀ error, checkForm Schema.violations value = .error error →
        ofText text = .error error ∧ ofJson value = .error error :=
  ⟨sameOutcome_ofText hvalue hkeys,
    fun _ hmanifest hsame ↦ isField_of_sameOutcome hvalue hkeys hsame hmanifest,
    fun _ herror ↦ ofText_of_checkForm hvalue herror⟩

/-- A text whose one type is named like a replication field. -/
def stateRootText : String :=
  "\x7b\"schema_version\":\"wasm-abi/1\"," ++
    "\"types\":\x7b\"state_root\":\x7b\"kind\":\"record\",\"fields\":[]\x7d\x7d," ++
    "\"methods\":[],\"events\":[]\x7d"

/-- The plain value of that text. -/
def stateRootValue : Json :=
  .object [("schema_version", .string "wasm-abi/1"),
    ("types", .object [("state_root",
      .object [("kind", .string "record"), ("fields", .array [])])]),
    ("methods", .array []), ("events", .array [])]

theorem ofText_stateRootText : Json.ofText stateRootText.toList = .ok stateRootValue :=
  toOption_eq_some_iff.1 (by decide +kernel)

theorem ofText_sameOutcome_ofJson_stateRoot :
    (Located.ofText stateRootText.toList).value.distinctKeys = true ∧
      ofJson stateRootValue = .ok ⟨"wasm-abi/1", [], [], []⟩ ∧
      ¬ SameOutcome (ofText stateRootText) (ofJson stateRootValue) := by
  have hkeys : (Located.ofText stateRootText.toList).value.distinctKeys = true := by
    decide +kernel
  have hmanifest : ofJson stateRootValue = .ok ⟨"wasm-abi/1", [], [], []⟩ := rfl
  refine ⟨hkeys, hmanifest, fun hsame ↦ ?_⟩
  have hname : "state_root" ∈ typeNames stateRootValue := by decide
  have hfalse : Replication.isField "state_root" = false :=
    (ofText_sameOutcome_ofJson ofText_stateRootText hkeys).2.1 _ (.inr hmanifest) hsame _ hname
  exact absurd hfalse (by decide)

/-- The type is in the manifest of the text, and not in that of its value. -/
theorem stateRoot_only_in_text :
    Json.ofText stateRootText.toList = .ok stateRootValue ∧
      ofText stateRootText = .ok ⟨"wasm-abi/1", [("state_root", .record [])], [], []⟩ ∧
      ofJson stateRootValue = .ok ⟨"wasm-abi/1", [], [], []⟩ :=
  ⟨ofText_stateRootText, toOption_eq_some_iff.1 (by decide +kernel), rfl⟩

end AbiBindings.Manifest
