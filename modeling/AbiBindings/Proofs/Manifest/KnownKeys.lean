import AbiBindings.Proofs.Manifest.EntryPoints
import AbiBindings.Proofs.Manifest.Keywise

/-!
# Known keys are given once

The plain value of a text has, under a key that an object repeats, what comes last; the typed
reading goes through the entries as they stand. The two could tell different stories about one text.
For the keys of a shape they do not: a slot that is filled refuses to be filled again, so an object
that is read has each of them at most once (`givenOnce_of_readEntries`), and what the plain value
has under such a key is the value of that one entry (`get?_of_givenOnce`).
-/

namespace AbiBindings

open Json

/-- At most one of the entries has the key. -/
def GivenOnce {α : Type} (key : String) (entries : List (Key × α)) : Prop :=
  entries.Pairwise fun entry other ↦ entry.1.name = .ok key → other.1.name ≠ .ok key

theorem GivenOnce.eq {α : Type} {key : String} {entries : List (Key × α)}
    (h : GivenOnce key entries) {entry other : Key × α} (hentry : entry ∈ entries)
    (hother : other ∈ entries) (hname : entry.1.name = .ok key) (hkey : other.1.name = .ok key) :
    entry = other := by
  by_contra hne
  have hsymm : Std.Symm fun entry other : Key × α ↦ entry.1.name = .ok key →
      other.1.name ≠ .ok key :=
    ⟨fun _ _ h hname hkey ↦ h hkey hname⟩
  exact List.Pairwise.forall h hentry hother hne hname hkey

/-! ### Objects that are read -/

section Entries

variable {σ : Type} {source : Source} {slots : List (Slot σ)} (hapart : slots.Pairwise Slot.Apart)
    {slot : Slot σ}
  (hslot : slot ∈ slots)
  (hfills : ∀ child fill, slot.read child = .ok fill → ∀ parts, slot.given (fill parts) = true)
include hapart hslot hfills

/-- The key of a slot is given at most once, and not at all if the slot is filled already. -/
theorem givenOnce_of_readEntries {entries : List (Key × Child)} {parts result : σ}
    (h : Shape.readEntries source slots entries parts = .ok result) :
    GivenOnce slot.key entries ∧
      (slot.given parts = true → ∀ entry ∈ entries, entry.1.name ≠ .ok slot.key) := by
  induction entries generalizing parts with
  | nil => exact ⟨.nil, fun _ ↦ List.forall_mem_nil _⟩
  | cons entry entries ih =>
    obtain ⟨⟨name, stop⟩, child⟩ := entry
    simp only [Shape.readEntries, bind_eq_ok_iff, mapError_eq_ok_iff] at h
    obtain ⟨name, rfl, h⟩ := h
    -- an entry with another key leaves everything to the entries after it
    have hpass (hne : name ≠ slot.key) {filled : σ} (hgiven : slot.given filled = slot.given parts)
        (hrest : Shape.readEntries source slots entries filled = .ok result) :
        GivenOnce slot.key ((⟨.ok name, stop⟩, child) :: entries) ∧ (slot.given parts = true →
          ∀ entry ∈ (⟨.ok name, stop⟩, child) :: entries, entry.1.name ≠ .ok slot.key) := by
      obtain ⟨honce, hnone⟩ := ih hrest
      have hname : (Except.ok name : Except Fault String) ≠ .ok slot.key :=
        fun heq ↦ hne (Except.ok.inj heq)
      rw [hgiven] at hnone
      exact ⟨List.pairwise_cons.2 ⟨fun _ _ heq ↦ absurd heq hname, honce⟩, fun hparts ↦
        List.forall_mem_cons.2 ⟨hname, hnone hparts⟩⟩
    split at h
    · rename_i hfind
      have hne : name ≠ slot.key :=
        fun heq ↦ by simpa [heq] using List.find?_eq_none.1 hfind slot hslot
      obtain ⟨-, -, h⟩ := bind_eq_ok_iff.1 h
      exact hpass hne rfl h
    · rename_i found hfind
      have hfound : found ∈ slots := List.mem_of_find?_eq_some hfind
      obtain rfl : found.key = name := by simpa using List.find?_some hfind
      split at h
      · cases h
      · rename_i hempty
        simp only [bind_eq_ok_iff, mapError_eq_ok_iff] at h
        obtain ⟨fill, hread, h⟩ := h
        by_cases heq : slot = found
        · subst heq
          have hnone := (ih h).2 (hfills child fill hread parts)
          exact ⟨List.pairwise_cons.2 ⟨fun other hother _ ↦ hnone other hother, (ih h).1⟩,
            fun hparts ↦ absurd hparts hempty⟩
        · have hpair : slot.Apart found := hapart.forall hslot hfound heq
          exact hpass hpair.key.symm (hpair.given hread parts) h

end Entries

theorem givenOnce_of_readDocument {source : Source} {start : Nat} {tooDeep : Bool}
    {entries : List (Key × Located)} {ending : Ending} {document : Document}
    (h : readDocument source (.object start tooDeep entries ending) = .ok document) :
    GivenOnce "schema_version" entries ∧ GivenOnce "types" entries := by
  simp only [readDocument, Shape.read, Shape.ofObject, bind_eq_ok_iff, readChildEntries_eq_map] at h
  obtain ⟨-, -, parts, hparts, -⟩ := h
  have honce {slot : Slot DocumentParts} (hslot : slot ∈ (DocumentParts.shape source).slots)
      (hfills : ∀ child fill, slot.read child = .ok fill →
        ∀ parts, slot.given (fill parts) = true) :
      GivenOnce slot.key entries :=
    List.pairwise_map.1 (givenOnce_of_readEntries DocumentParts.keyed.apart hslot hfills hparts).1
  constructor
  · refine honce List.mem_cons_self fun child fill hfill parts ↦ ?_
    obtain ⟨version, -, rfl⟩ := map_eq_ok_iff.1 hfill
    rfl
  · refine honce (List.mem_cons_of_mem _ List.mem_cons_self) fun child fill hfill parts ↦ ?_
    obtain ⟨types, -, rfl⟩ := map_eq_ok_iff.1 hfill
    rfl

/-! ### Plain values and texts -/

/-- Under a key that is given once, the plain value of an object has the value of the entry with
that key. -/
theorem get?_of_givenOnce {entries : List (Key × Located)} {raw : List (String × Json)}
    (h : List.Forall₂ Located.IsEntry entries raw) {key : String} (honce : GivenOnce key entries)
    {entry : Key × Located} (hentry : entry ∈ entries)
    (hname : entry.1.name = .ok key) {json : Json} (hjson : entry.2.toJson = .ok json) :
    (Json.object (Table.ofEntries raw)).get? key = some json := by
  obtain ⟨⟨name, value⟩, hfield, hfieldName, -⟩ := exists_of_forall₂ h hentry
  obtain rfl : name = key := Except.ok.inj (hfieldName.symm.trans hname)
  have hmem : name ∈ Table.names raw.reverse :=
    Table.mem_names_iff.2 ⟨value, List.mem_reverse.2 hfield⟩
  obtain ⟨last, hlast⟩ := Table.exists_find?_eq_some hmem
  -- the entry that comes last is the only one
  obtain ⟨other, hother, hotherName, hotherJson⟩ :=
    exists_of_forall₂ h.flip (List.mem_reverse.1 (Table.mem_of_find?_eq_some hlast))
  obtain rfl : entry = other := honce.eq hentry hother hname hotherName
  obtain rfl : last = json := Except.ok.inj (hotherJson.symm.trans hjson)
  rw [Json.get?, Table.find?_ofEntries, hlast]

theorem readDocument_of_readFromText {chars : List Char} {document : Document}
    (h : readFromText readDocument chars = .ok document) :
    readDocument (.text chars) (Located.ofText chars).value = .ok document := by
  simp only [readFromText, bind_eq_ok_iff] at h
  obtain ⟨part, hread, hpart⟩ := h
  split at hpart
  · cases hpart
    exact hread
  · cases hpart

/-- Where a manifest comes from a text, the text is an object, and the document is read from its
entries. -/
theorem Manifest.exists_document_of_ofTextFrom {origin : Origin} {text : String}
    {manifest : Manifest} (h : ofTextFrom origin text = .ok manifest) :
    ∃ start stop entries raw stripped document,
      (Located.ofText text.toList).value = .object start false entries (.closed stop) ∧
        List.Forall₂ Located.IsEntry entries raw ∧
        checkForm Schema.violations (.object (Table.ofEntries raw)) = .ok stripped ∧
        readDocument (.text text.toList) (.object start false entries (.closed stop)) =
        .ok document ∧
        document.check = .ok manifest := by
  simp only [ofTextFrom, bind_eq_ok_iff, mapError_eq_ok_iff, readingResult] at h
  obtain ⟨value, hvalue, stripped, hform, document, hread, hcheck⟩ := h
  obtain ⟨fields, rfl⟩ := exists_object_of_violations (of_checkForm_eq_ok hform).1
  obtain ⟨htree, -⟩ := tree_of_ofText hvalue
  obtain ⟨start, stop, entries, raw, hnode, hentries, rfl⟩ := Located.exists_entries_of_toJson htree
  have hread := readDocument_of_readFromText hread
  rw [hnode] at hread
  exact ⟨start, stop, entries, raw, stripped, document, hnode, hentries, hform, hread, hcheck⟩

end AbiBindings
