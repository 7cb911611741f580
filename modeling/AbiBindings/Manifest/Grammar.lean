import AbiBindings.Manifest.Basic
import AbiBindings.Json.Basic

/-!
# The written form of types

Which JSON values are type references and type definitions. Both are objects whose `kind` decides
which other keys there are; nothing else may stand in them. A type reference may instead be a `$ref`
with the name of a type.
-/

namespace AbiBindings.Grammar

open Json

/-! ### Keys and plain values -/

/-- Only these keys, and all of the first ones. -/
def hasKeys (required optional : List String) (entries : List (String × Json)) : Bool :=
  required.all (Table.contains · entries) &&
    entries.all fun (key, _) ↦ required.contains key || optional.contains key

/-- A name is a text that is not empty. -/
def isName : Json → Bool
  | .string s => s ≠ ""
  | _ => false

/-- Any text. -/
def isText : Json → Bool
  | .string _ => true
  | _ => false

/-- True or false. -/
def isFlag : Json → Bool
  | .bool _ => true
  | _ => false

/-- The given text. -/
def isWord (word : String) : Json → Bool
  | .string s => s = word
  | _ => false

/-- The number of bytes of a fixed length: whole, at least one, and of 32 bits. -/
def isByteCount : Json → Bool
  | .number n =>
    match n.toInt? with
    | some k => 1 ≤ k && k ≤ 4294967295
    | none => false
  | _ => false

/-- The value under a key is there and satisfies the test. -/
def valueAt (test : Json → Bool) (key : String) (entries : List (String × Json)) : Bool :=
  (Table.find? key entries).any test

/-- The value under a key satisfies the test if it is there. -/
def valueIfAt (test : Json → Bool) (key : String) (entries : List (String × Json)) : Bool :=
  (Table.find? key entries).all test

/-! ### Type references -/

/-- A `$ref` and nothing else. -/
def isReference (entries : List (String × Json)) : Bool :=
  hasKeys ["$ref"] [] entries && valueAt isName "$ref" entries

/-- The kind of a scalar and nothing else. -/
def isScalar (entries : List (String × Json)) : Bool :=
  hasKeys ["kind"] [] entries &&
    ScalarKind.all.any fun kind ↦ valueAt (isWord kind.tag) "kind" entries

/-- A byte sequence, with a size if its length is fixed. -/
def isBytes (entries : List (String × Json)) : Bool :=
  hasKeys ["kind"] ["size", "encoding"] entries && valueAt (isWord "bytes") "kind" entries &&
    valueIfAt isByteCount "size" entries && valueIfAt (isWord "hex") "encoding" entries

mutual

/-- A type reference. -/
def isTypeRef : Json → Bool
  | .object entries =>
    isReference entries || isScalar entries || isBytes entries ||
      (hasKeys ["kind", "items"] [] entries && valueAt (isWord "list") "kind" entries &&
        isTypeRefAt "items" entries) ||
      (hasKeys ["kind", "key", "value"] [] entries && valueAt (isWord "map") "kind" entries &&
        isTypeRefAt "key" entries && isTypeRefAt "value" entries) ||
      (hasKeys ["kind", "fields"] [] entries && valueAt (isWord "record") "kind" entries &&
        isFieldListAt "fields" entries)
  | _ => false

/-- The value under a key is a type reference. -/
def isTypeRefAt (key : String) : List (String × Json) → Bool
  | [] => false
  | (k, value) :: entries => if k = key then isTypeRef value else isTypeRefAt key entries

/-- The value under a key is a list of fields. -/
def isFieldListAt (key : String) : List (String × Json) → Bool
  | [] => false
  | (k, value) :: entries => if k = key then isFieldList value else isFieldListAt key entries

/-- A list of fields. -/
def isFieldList : Json → Bool
  | .array items => areFields items
  | _ => false

/-- Every item is a field. -/
def areFields : List Json → Bool
  | [] => true
  | item :: items => isField item && areFields items

/-- A field of a record. -/
def isField : Json → Bool
  | .object entries =>
    hasKeys ["name", "type"] ["nullable"] entries && valueAt isName "name" entries &&
      isTypeRefAt "type" entries && valueIfAt isFlag "nullable" entries
  | _ => false

end

/-! ### Type definitions -/

/-- A case of a variant. -/
def isCase : Json → Bool
  | .object entries =>
    hasKeys ["name"] ["code", "payload"] entries && valueAt isName "name" entries &&
      valueIfAt isText "code" entries && valueIfAt isTypeRef "payload" entries
  | _ => false

/-- A list of cases. -/
def isCaseList : Json → Bool
  | .array items => items.all isCase
  | _ => false

/-- A type definition. -/
def isTypeDef : Json → Bool
  | .object entries =>
    (hasKeys ["kind", "fields"] [] entries && valueAt (isWord "record") "kind" entries &&
      valueAt isFieldList "fields" entries) ||
      (hasKeys ["kind", "variants"] [] entries && valueAt (isWord "variant") "kind" entries &&
        valueAt isCaseList "variants" entries) ||
      isBytes entries ||
      (hasKeys ["kind", "target"] [] entries && valueAt (isWord "alias") "kind" entries &&
        valueAt isTypeRef "target" entries)
  | _ => false

end AbiBindings.Grammar
