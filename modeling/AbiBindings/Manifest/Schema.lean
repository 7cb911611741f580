import AbiBindings.Json.Printer
import AbiBindings.Manifest.Grammar
import AbiBindings.Manifest.Violation

/-!
# The manifest format, checked

`Schema.violations` lists what keeps a JSON value from being a manifest, in a fixed order. An object
is checked for being one, then for the keys it lacks in the order of the format, then entry by
entry, and last for the keys it should not have, which make up a single violation. A type reference
or a type definition is right or wrong as a whole: nothing is reported from inside it.
-/

namespace AbiBindings.Schema

open Json Grammar

/-- A check gives the violations of a value, with places counted from the value. -/
abbrev Check := Json → List Violation

/-! ### Checks of single values -/

/-- A violation of the value itself. -/
def violation (message : String) : List Violation := [⟨[], message⟩]

/-- The violation of a value of the wrong kind. -/
def wrongType (kind : String) (value : Json) : List Violation :=
  violation (value.compact ++ " is not of type \"" ++ kind ++ "\"")

/-- A name is a text that is not empty. -/
def name : Check
  | .string s => if s = "" then violation "\"\" is shorter than 1 character" else []
  | value => wrongType "string" value

/-- A flag is true or false. -/
def flag : Check
  | .bool _ => []
  | value => wrongType "boolean" value

/-- The given text and no other value. -/
def word (expected : String) : Check := fun value ↦
  if isWord expected value then [] else violation (stringText expected ++ " was expected")

/-- A value with several written forms, as told by the test. -/
def oneForm (test : Json → Bool) : Check := fun value ↦
  if test value then []
  else
    violation (value.compact ++
      " is not valid under any of the schemas listed in the 'oneOf' keyword")

/-! ### Checks of lists and objects -/

/-- The violations of the items of a list, from an index on. -/
def items (check : Check) : Nat → List Json → List Violation
  | _, [] => []
  | i, item :: rest => (check item).map (.under (toString i)) ++ items check (i + 1) rest

/-- A list of values that satisfy a check. -/
def list (check : Check) : Check
  | .array values => items check 0 values
  | value => wrongType "array" value

/-- The violations of keys that are missing. -/
def missingKeys (required : List String) (entries : List (String × Json)) : List Violation :=
  (required.filter (!Table.contains · entries)).flatMap fun key ↦
    violation (stringText key ++ " is a required property")

/-- The violation of keys that should not be there. -/
def unknownKeys (known : List String) (entries : List (String × Json)) : List Violation :=
  match (Table.names entries).filter (!known.contains ·) with
  | [] => []
  | unknown =>
    let verb := if unknown.length = 1 then " was" else " were"
    violation ("Additional properties are not allowed (" ++
      ", ".intercalate (unknown.map fun key ↦ "'" ++ key ++ "'") ++ verb ++ " unexpected)")

/-- The violations of the values under known keys. -/
def knownEntries (members : List (String × Check)) (entries : List (String × Json)) :
    List Violation :=
  entries.flatMap fun (key, value) ↦
    match Table.find? key members with
    | some check => (check value).map (.under key)
    | none => []

/-- An object with the given keys, some of them required. -/
def object (required : List String) (members : List (String × Check)) : Check
  | .object entries =>
    missingKeys required entries ++ knownEntries members entries ++
      unknownKeys (Table.names members) entries
  | value => wrongType "object" value

/-- An object whose keys are names and whose values satisfy a check. -/
def table (check : Check) : Check
  | .object entries =>
    entries.flatMap (fun (key, _) ↦ name (.string key)) ++
      entries.flatMap fun (key, value) ↦ (check value).map (.under key)
  | value => wrongType "object" value

/-! ### The manifest -/

/-- A type reference. -/
def typeRef : Check := oneForm isTypeRef

/-- A parameter of a method. -/
def parameter : Check :=
  object ["name", "type"] [("name", name), ("type", typeRef), ("nullable", flag)]

/-- A way for a method to fail. -/
def methodError : Check :=
  object ["code"] [("code", name), ("payload", typeRef)]

/-- A method. -/
def method : Check :=
  object ["name", "params"]
    [("name", name), ("params", list parameter), ("returns", typeRef), ("returns_nullable", flag),
      ("errors", list methodError)]

/-- An event. -/
def event : Check :=
  object ["name"] [("name", name), ("payload", typeRef)]

/-- A manifest. -/
def manifest : Check :=
  object ["schema_version", "types", "methods", "events"]
    [("schema_version", word Manifest.supportedVersion), ("types", table (oneForm isTypeDef)),
      ("methods", list method), ("events", list event)]

/-- What keeps a value from being a manifest; places are given by pointers from the root. -/
def violations (value : Json) : List Violation :=
  (manifest value).map fun v ↦ .ofPointer (Pointer.encode v.path) v.message

end AbiBindings.Schema
