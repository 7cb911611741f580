import AbiBindings.Json.Basic
import AbiBindings.Number.Shortest

/-!
# Compact JSON text

JSON text without any blank. A quote, a backslash and the control characters are escaped, five of
these by a letter and the others by four hexadecimal digits; every other character stands for
itself. A double is written positionally, with at least one decimal, when its decimal exponent lies
between -5 and 15, and otherwise with an exponent that carries its sign.
-/

namespace AbiBindings

open Number

namespace JsonNumber

/-- The decimal exponents of doubles that are written positionally. -/
def isPositional (exponent : Int) : Bool := -5 ≤ exponent && exponent ≤ 15

/-- Decimal digits around a decimal point that stands after the digit of weight one. -/
def positional (digits : List Char) (exponent : Int) : List Char :=
  if exponent < 0 then
    ['0', '.'] ++ List.replicate (-exponent - 1).toNat '0' ++ digits
  else
    let whole := exponent.toNat + 1
    if digits.length ≤ whole then
      digits ++ List.replicate (whole - digits.length) '0' ++ ['.', '0']
    else digits.take whole ++ ['.'] ++ digits.drop whole

/-- One digit before the decimal point, and an exponent with its sign. -/
def scientific (digits : List Char) (exponent : Int) : List Char :=
  let fraction := if digits.length ≤ 1 then [] else '.' :: digits.drop 1
  let sign := if exponent < 0 then '-' else '+'
  digits.take 1 ++ fraction ++ ['e', sign] ++ Nat.toDigits 10 exponent.natAbs

/-- The text of a double. -/
def doubleText (x : Double) : List Char :=
  let d := x.shortest
  let digits := Nat.toDigits 10 d.digits
  let exponent := d.power + (digits.length - 1 : Nat)
  let magnitude :=
    if isPositional exponent then positional digits exponent else scientific digits exponent
  if x.negative then '-' :: magnitude else magnitude

/-- The text of a number. -/
def text : JsonNumber → String
  | whole n => toString n
  | double x => String.ofList (doubleText x)

end JsonNumber

namespace Json

/-- One character inside a JSON string. -/
def escapedChar (c : Char) : List Char :=
  if c = '"' ∨ c = '\\' then ['\\', c]
  else if c = '\x08' then ['\\', 'b']
  else if c = '\t' then ['\\', 't']
  else if c = '\n' then ['\\', 'n']
  else if c = '\x0c' then ['\\', 'f']
  else if c = '\r' then ['\\', 'r']
  else if c.toNat < 0x20 then
    ['\\', 'u', '0', '0', Nat.digitChar (c.toNat / 16), Nat.digitChar (c.toNat % 16)]
  else [c]

/-- A string as JSON text. -/
def stringText (s : String) : String :=
  String.ofList ('"' :: s.toList.flatMap escapedChar ++ ['"'])

mutual

/-- The compact text of a value. -/
def compact : Json → String
  | null => "null"
  | bool b => if b then "true" else "false"
  | number n => n.text
  | string s => stringText s
  | array items => "[" ++ ",".intercalate (compactItems items) ++ "]"
  | object entries => "\x7b" ++ ",".intercalate (compactEntries entries) ++ "\x7d"

/-- The texts of the items of a list. -/
def compactItems : List Json → List String
  | [] => []
  | item :: items => compact item :: compactItems items

/-- The texts of the entries of an object. -/
def compactEntries : List (String × Json) → List String
  | [] => []
  | (key, value) :: entries => (stringText key ++ ":" ++ compact value) :: compactEntries entries

end

end Json

end AbiBindings
