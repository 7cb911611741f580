import AbiBindings.Files.Fault
import AbiBindings.Json.Fault
import AbiBindings.Manifest.Basic
import AbiBindings.Manifest.Violation

/-!
# Errors

What can go wrong between a manifest and the files generated from it. Each step fails with one
error, and no later step runs after that.
-/

namespace AbiBindings

/-- A reference to a type that has no definition. -/
structure DanglingReference where
  name : String
  location : String
deriving Repr, DecidableEq

/-- The wording of a dangling reference. -/
def DanglingReference.describe (reference : DanglingReference) : String :=
  "Dangling $ref \"" ++ reference.name ++ "\" in " ++ reference.location

/-- What a repeated name names. -/
inductive NameKind where
  | method
  | event
  | type
deriving Repr, DecidableEq

/-- The word for what a name names. -/
def NameKind.describe : NameKind → String
  | method => "method"
  | event => "event"
  | type => "type"

/-- Where a JSON text comes from. -/
inductive Origin where
  | input
  | file (path : String)
deriving Repr, DecidableEq

/-- The wording of an origin. -/
def Origin.describe : Origin → String
  | input => "input"
  | file path => "file " ++ path

/-- A use of a type that its definition does not allow. A checked manifest has none. -/
inductive Misuse where
  | undeclared (name : String)
  | notAVariant (name : String)
deriving Repr, DecidableEq

/-- The wording of a misuse. -/
def Misuse.describe : Misuse → String
  | undeclared name => "type '" ++ name ++ "' is not declared"
  | notAVariant name => "type '" ++ name ++ "' is not a variant"

/-- What went wrong. -/
inductive Error where
  /-- The document does not have the form of a manifest. -/
  | invalid (violations : List Violation)
  /-- The document is of another version. -/
  | unsupportedVersion (found : String)
  /-- References lead nowhere. -/
  | danglingReferences (references : List DanglingReference)
  /-- Maps have keys that are no strings, at these locations. -/
  | nonStringKeys (locations : List String)
  /-- Names are given twice. -/
  | duplicateNames (kind : NameKind) (names : List String)
  /-- A file or directory could not be used. -/
  | file (path : String) (fault : Files.Fault)
  /-- The text is no JSON. -/
  | malformed (origin : Origin) (mistake : Json.Mistake) (position : Text.Position)
  /-- A type is used against its definition. -/
  | misused (misuse : Misuse)
deriving Repr

/-- The wording of an error. -/
def Error.message : Error → String
  | invalid violations =>
    "ABI schema validation failed:\n" ++
      "\n".intercalate (violations.map fun violation ↦ "- " ++ violation.describe)
  | unsupportedVersion found =>
    "Invalid schema version: expected \"" ++ Manifest.supportedVersion ++
      "\", got \"" ++ found ++ "\""
  | danglingReferences references => "\n".intercalate (references.map DanglingReference.describe)
  | nonStringKeys locations =>
    "\n".intercalate (locations.map ("Map key must be string type in " ++ ·))
  | duplicateNames kind names =>
    "Duplicate " ++ kind.describe ++ " names: " ++ ", ".intercalate names
  | file path fault => "failed to read '" ++ path ++ "': " ++ fault.message
  | malformed origin mistake position =>
    "Invalid JSON in " ++ origin.describe ++ ": " ++ mistake.message ++ " " ++ position.describe
  | misused misuse => "internal generation error: " ++ misuse.describe

end AbiBindings
