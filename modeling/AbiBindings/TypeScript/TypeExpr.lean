import AbiBindings.Manifest.Basic
import AbiBindings.TypeScript.Literal

/-!
# Type expressions

The types written in generated text: names, arrays, `Record` types and object types. A property of
an object type that allows for null has the type in a union with `null`.
-/

namespace AbiBindings.TypeScript

/-- A type expression. -/
inductive TypeExpr where
  | name (name : String)
  | array (items : TypeExpr)
  | dictionary (key value : TypeExpr)
  | object (members : List (Member TypeExpr))
deriving Repr

/-- A type in a union with `null` if it allows for null. -/
def orNull (type : String) (nullable : Bool) : String :=
  if nullable then type ++ " | null" else type

namespace TypeExpr

mutual

/-- The text of a type expression. -/
def text : TypeExpr → String
  | name n => n
  | array items => items.text ++ "[]"
  | dictionary key value => "Record<" ++ key.text ++ ", " ++ value.text ++ ">"
  | object [] => "\x7b\x7d"
  | object (m :: members) => "\x7b " ++ "; ".intercalate (memberTexts (m :: members)) ++ " \x7d"

/-- The texts of the properties of an object type. -/
def memberTexts : List (Member TypeExpr) → List String
  | [] => []
  | ⟨key, type, nullable⟩ :: members =>
    (propertyKey key ++ ": " ++ orNull type.text nullable) :: memberTexts members

end

end TypeExpr

end AbiBindings.TypeScript
