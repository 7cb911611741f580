import AbiBindings.Json.Located
import AbiBindings.Json.Printer
import AbiBindings.Text.Quoted

/-!
# Problems of a typed reading

Why a JSON value cannot be read as a part of a manifest. A reading that starts from a text also
tells where: the place is an offset into the text, and a reading that starts from a plain value has
none.
-/

namespace AbiBindings

open Json

/-- What a position of a manifest calls for. -/
inductive Wanted where
  | typeRef
  | typeDef
  | field
  | parameter
  | case
  | methodError
  | method
  | event
  | document
  | typeTable
  | list
  | text
  | flag
  | count
deriving Repr, DecidableEq

/-- The wording of what a position calls for. -/
def Wanted.describe : Wanted → String
  | typeRef => "struct RawTypeRef"
  | typeDef => "struct RawTypeDef"
  | field => "struct Field"
  | parameter => "struct Parameter"
  | case => "struct VariantCase"
  | methodError => "struct MethodError"
  | method => "struct Method"
  | event => "struct Event"
  | document => "struct ManifestDocument"
  | typeTable => "a map of type name to type definition"
  | list => "a sequence"
  | text => "a string"
  | flag => "a boolean"
  | count => "u32"

/-- What was found instead. -/
inductive Found where
  | scalar (value : Scalar)
  | list
  | object
deriving Repr

/-- The wording of what was found. -/
def Found.describe : Found → String
  | scalar .null => "null"
  | scalar (.bool b) => "boolean `" ++ (if b then "true" else "false") ++ "`"
  | scalar (.number (.whole n)) => "integer `" ++ toString n ++ "`"
  | scalar (.number (.double x)) => "floating point `" ++ (JsonNumber.double x).text ++ "`"
  | scalar (.string s) => "string " ++ Text.quoted s
  | list => "sequence"
  | object => "map"

/-- Why a value cannot be read. -/
inductive Problem where
  /-- The text is no JSON. -/
  | malformed (mistake : Mistake)
  /-- The value is of the wrong kind. -/
  | mismatch (found : Found) (wanted : Wanted)
  /-- A count does not fit into 32 bits. -/
  | outOfRange (value : Int)
  /-- An object has a key twice. -/
  | repeated (key : String)
  /-- An object lacks a key. -/
  | missing (key : String)
  /-- A list that stands for an object ends too early. -/
  | tooShort (length : Nat) (wanted : Wanted) (full : Nat)
  /-- A list that stands for an object goes on too long. -/
  | tooLong (length : Nat)
  | noKind
  | zeroSize
  | listWithoutItems
  | mapWithoutKeyOrValue
  | recordWithoutFields
  | unknownKind (kind : String)
  | definitionWithoutFields
  | definitionWithoutCases
  | definitionWithoutTarget
  | unknownDefinitionKind (kind : String)
deriving Repr

/-- The wording of a problem. -/
def Problem.message : Problem → String
  | malformed mistake => mistake.message
  | mismatch found wanted => "invalid type: " ++ found.describe ++ ", expected " ++ wanted.describe
  | outOfRange n =>
    "invalid value: integer `" ++ toString n ++ "`, expected " ++ Wanted.count.describe
  | repeated key => "duplicate field `" ++ key ++ "`"
  | missing key => "missing field `" ++ key ++ "`"
  | tooShort length wanted full =>
    "invalid length " ++ toString length ++ ", expected " ++ wanted.describe ++ " with " ++
      toString full ++ (if full = 1 then " element" else " elements")
  | tooLong length => "invalid length " ++ toString length ++ ", expected fewer elements in array"
  | noKind => "type reference needs either '$ref' or 'kind'"
  | zeroSize => "fixed bytes size must be at least 1"
  | listWithoutItems => "list type reference is missing 'items'"
  | mapWithoutKeyOrValue => "map type reference needs 'key' and 'value'"
  | recordWithoutFields => "record type reference is missing 'fields'"
  | unknownKind kind => "unknown type reference kind '" ++ kind ++ "'"
  | definitionWithoutFields => "record type is missing 'fields'"
  | definitionWithoutCases => "variant type is missing 'variants'"
  | definitionWithoutTarget => "alias type is missing 'target'"
  | unknownDefinitionKind kind => "unknown type definition kind '" ++ kind ++ "'"

/-- A problem, with its offset in the text once that is known. -/
structure ReadError where
  problem : Problem
  offset : Option Nat
deriving Repr

namespace ReadError

/-- The fault of a text as an error of reading it. -/
def ofFault (fault : Fault) : ReadError :=
  ⟨.malformed fault.mistake, some fault.offset⟩

/-- The error as messages give it. -/
def message (text : List Char) (error : ReadError) : String :=
  match error.offset with
  | none => error.problem.message
  | some offset =>
    error.problem.message ++ " " ++ (Text.Position.ofOffset text offset).describe

end ReadError

end AbiBindings
