import AbiBindings.Manifest.Load
import AbiBindings.Proofs.Manifest.Checks

/-!
# Manifests as they are obtained

A manifest is obtained from a plain value, under any validator, or from a text. Whatever the way,
the last step is the check of a document, so the conditions of the check hold of the manifest itself
(`Obtained.checked`). The type table of the manifest is built from the entries of the document;
these have distinct names by then, so it lists the same entries (`toDocument_of_check`).
-/

namespace AbiBindings.Manifest

/-- The manifest comes from a plain value or from a text. -/
inductive Obtained : Manifest → Prop
  | ofJsonWith {validator : Validator} {value : Json} {manifest : Manifest}
    (h : Manifest.ofJsonWith validator value = .ok manifest) : Obtained manifest
  | ofTextFrom {origin : Origin} {text : String} {manifest : Manifest}
    (h : Manifest.ofTextFrom origin text = .ok manifest) : Obtained manifest

/-- A text whose value has the form of a manifest, and that is read, is left to the check of the
document. -/
theorem ofTextFrom_of_read {text : String} {value stripped : Json} {document : Document}
    (hvalue : Json.ofText text.toList = .ok value)
    (hform : checkForm Schema.violations value = .ok stripped)
    (hread : readFromText readDocument text.toList = .ok document) (origin : Origin) :
    ofTextFrom origin text = document.check := by
  rw [ofTextFrom, hvalue, hread]
  change (do let _ ← checkForm Schema.violations value; document.check) = _
  rw [hform]
  rfl

/-- The parts of a manifest as a document. -/
def toDocument (manifest : Manifest) : Document :=
  ⟨manifest.version, manifest.types, manifest.methods, manifest.events⟩

/-- The conditions of the checks hold of the manifest. -/
structure Checked (manifest : Manifest) : Prop where
  references : manifest.toDocument.ReferencesResolve
  keys : manifest.toDocument.KeysAreStrings
  names : ∀ kind, (manifest.toDocument.namesOf kind).Nodup

/-- A manifest has all parts of the document that passed the checks. -/
theorem toDocument_of_check {document : Document} {manifest : Manifest}
    (h : document.check = .ok manifest) : manifest.toDocument = document := by
  obtain ⟨-, -, hnames, rfl⟩ := Document.check_eq_ok_iff.1 h
  have htypes : Table.ofEntries document.types = document.types :=
    Table.ofEntries_eq_self (hnames .type)
  rw [toDocument, ofDocument, htypes]

/-- A document that passed the checks has what they check. -/
theorem checked_of_check {document : Document} {manifest : Manifest}
    (h : document.check = .ok manifest) : manifest.Checked := by
  obtain ⟨hreferences, hkeys, hnames, -⟩ := Document.check_eq_ok_iff.1 h
  rw [← toDocument_of_check h] at hreferences hkeys hnames
  exact ⟨hreferences, hkeys, hnames⟩

/-- However a manifest is obtained, it comes from a document that passed the checks. -/
theorem Obtained.exists_check {manifest : Manifest} (h : manifest.Obtained) :
    ∃ document : Document, document.check = .ok manifest := by
  cases h with
  | ofJsonWith h =>
    simp only [Manifest.ofJsonWith, bind_eq_ok_iff] at h
    obtain ⟨-, -, document, -, hcheck⟩ := h
    exact ⟨document, hcheck⟩
  | ofTextFrom h =>
    simp only [Manifest.ofTextFrom, bind_eq_ok_iff] at h
    obtain ⟨-, -, -, -, document, -, hcheck⟩ := h
    exact ⟨document, hcheck⟩

/-- However a manifest is obtained, it has what the checks check. -/
theorem Obtained.checked {manifest : Manifest} (h : manifest.Obtained) : manifest.Checked := by
  obtain ⟨document, hcheck⟩ := h.exists_check
  exact checked_of_check hcheck

end AbiBindings.Manifest
