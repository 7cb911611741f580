import AbiBindings.Json.Pointer

/-!
# Violations of the manifest format

A violation says what is wrong with a value of a manifest and where the value stands, by the keys
and indices that lead to it from the root.
-/

namespace AbiBindings

/-- Something wrong at a place of a manifest. -/
structure Violation where
  path : List String
  message : String
deriving Repr, DecidableEq

namespace Violation

/-- The violation at the place that a pointer names. -/
def ofPointer (pointer message : String) : Violation :=
  ⟨Json.Pointer.decode pointer, message⟩

/-- The place as messages give it. -/
def location (violation : Violation) : String :=
  if violation.path.isEmpty then "<root>" else ".".intercalate violation.path

/-- The place and what is wrong there. -/
def describe (violation : Violation) : String :=
  violation.location ++ ": " ++ violation.message

/-- The violation of a value that stands under `segment`. -/
def under (segment : String) (violation : Violation) : Violation :=
  { violation with path := segment :: violation.path }

end Violation

end AbiBindings
