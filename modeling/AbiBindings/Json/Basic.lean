import AbiBindings.Number.Double
import AbiBindings.Table

/-!
# JSON values

A JSON value with the entries of an object in order. A number is a whole number or a double: which
of the two it is shows in messages and in checks, so the two are kept apart even where they are
equal.

Objects read from a text or built with `Table.insert` have no repeated key; `Json.WellFormed` says
so.
-/

namespace AbiBindings

open Number

/-- A number of a JSON value. -/
inductive JsonNumber where
  | whole (value : Int)
  | double (value : Double)
deriving Repr, DecidableEq

/-- A JSON value. -/
inductive Json where
  | null
  | bool (value : Bool)
  | number (value : JsonNumber)
  | string (value : String)
  | array (items : List Json)
  | object (entries : List (String × Json))
deriving Repr

namespace JsonNumber

/-- The value, if it is whole; a double without a fraction counts. -/
def toInt? : JsonNumber → Option Int
  | whole n => some n
  | double x => x.toInt?

end JsonNumber

namespace Json

/-- The value under a key of an object. -/
def get? (key : String) : Json → Option Json
  | object entries => Table.find? key entries
  | _ => none

mutual

/-- No object in the value repeats a key. -/
def WellFormed : Json → Prop
  | array items => WellFormedItems items
  | object entries => (entries.map Prod.fst).Nodup ∧ WellFormedEntries entries
  | _ => True

/-- `WellFormed` for the items of a list. -/
def WellFormedItems : List Json → Prop
  | [] => True
  | item :: items => WellFormed item ∧ WellFormedItems items

/-- `WellFormed` for the entries of an object. -/
def WellFormedEntries : List (String × Json) → Prop
  | [] => True
  | (_, value) :: entries => WellFormed value ∧ WellFormedEntries entries

end

end Json

end AbiBindings
