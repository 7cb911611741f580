import AbiBindings.Manifest.Check
import AbiBindings.Manifest.Reading
import AbiBindings.Manifest.Replication
import AbiBindings.Manifest.Schema

/-!
# From JSON to a manifest

A manifest is taken from a plain JSON value or from a JSON text. The version is looked at first,
then the form, then the parts are read, and last the document is checked as a whole.

Replication fields are removed before version and form are looked at. A plain value is then read
without them; a text is read as it stands, so that a name given twice in its type table is noticed.
-/

namespace AbiBindings.Manifest

/-- What a value is checked with: the violations that it finds. -/
abbrev Validator := Json → List Violation

/-- The version named by a value, if it names one. -/
def statedVersion? (value : Json) : Option String :=
  match value.get? "schema_version" with
  | some (.string version) => some version
  | _ => none

/-- Checks version and form, and gives the value without replication fields. -/
def checkForm (validator : Validator) (value : Json) : Except Error Json := do
  let stripped := Replication.strip value
  match statedVersion? stripped with
  | some version => if version ≠ supportedVersion then .error (.unsupportedVersion version)
  | none => .ok ()
  match validator stripped with
  | [] => return stripped
  | violations => .error (.invalid violations)

/-- A document, or its problem as a violation of the whole. -/
def readingResult (text : List Char) (result : Except ReadError Document) : Except Error Document :=
  result.mapError fun error ↦ .invalid [⟨[], error.message text⟩]

/-- The manifest of a plain value, whose form is left to a validator. -/
def ofJsonWith (validator : Validator) (value : Json) : Except Error Manifest := do
  let stripped ← checkForm validator value
  let document ← readingResult [] (readFromJson readDocument stripped)
  document.check

/-- The manifest of a plain value. -/
def ofJson (value : Json) : Except Error Manifest :=
  ofJsonWith Schema.violations value

/-- The manifest of a text from some origin. -/
def ofTextFrom (origin : Origin) (text : String) : Except Error Manifest := do
  let chars := text.toList
  let value ← (Json.ofText chars).mapError fun fault ↦
    .malformed origin fault.mistake (.ofOffset chars fault.offset)
  let _ ← checkForm Schema.violations value
  let document ← readingResult chars (readFromText readDocument chars)
  document.check

/-- The manifest of a text. -/
def ofText (text : String) : Except Error Manifest :=
  ofTextFrom .input text

end AbiBindings.Manifest
