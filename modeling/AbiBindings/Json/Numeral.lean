import AbiBindings.Json.Basic
import AbiBindings.Json.Fault

/-!
# Numerals of a JSON text

A numeral has a sign, whole digits, and possibly a fraction and an exponent. `Numeral.scan` finds
its parts, or the place where it breaks off; `Numeral.value` is the number that they denote. A
numeral without fraction and exponent in the range of a 64-bit word, signed or unsigned, is a whole
number; every other one, and `-0`, is a double.
-/

namespace AbiBindings.Json

open Number

/-- The exponent of a numeral. -/
structure Exponent where
  negative : Bool
  digits : List Char
  /-- The offset of the first digit. -/
  start : Nat
deriving Repr

/-- The parts of a numeral. -/
structure Numeral where
  negative : Bool
  whole : List Char
  fraction : List Char
  /-- The numeral has a fraction or an exponent. -/
  isDecimal : Bool
  exponent : Option Exponent
deriving Repr

namespace Numeral

/-- The value of a string of decimal digits. -/
def digitsValue (digits : List Char) : Nat :=
  digits.foldl (fun n c ↦ 10 * n + (c.toNat - '0'.toNat)) 0

/-! ### Scanning -/

/-- The rest of a text, with its offset. -/
abbrev Rest := Nat × List Char

/-- The digits at the start of a text, which may be none. -/
def digits (offset : Nat) (cs : List Char) : List Char × Rest :=
  let ds := cs.takeWhile Char.isDigit
  (ds, offset + ds.length, cs.drop ds.length)

/-- The exponent after its mark: an optional sign and at least one digit. A character that is no
digit counts as read. -/
def scanExponent (offset : Nat) (cs : List Char) : Except Break (Exponent × Rest) :=
  let (negative, offset, cs) : Bool × Nat × List Char :=
    match cs with
    | '+' :: rest => (false, offset + 1, rest)
    | '-' :: rest => (true, offset + 1, rest)
    | _ => (false, offset, cs)
  match cs with
  | [] => .error (.either .endInValue .badNumber offset)
  | c :: _ =>
    if c.isDigit then
      let (ds, stop, rest) := digits offset cs
      .ok (⟨negative, ds, offset⟩, stop, rest)
    else .error (.both .badNumber (offset + 1))

/-- The fraction after the decimal point: at least one digit. -/
def scanFraction (offset : Nat) (cs : List Char) : Except Break (List Char × Rest) :=
  match cs with
  | [] => .error (.either .endInValue .badNumber offset)
  | c :: _ =>
    if c.isDigit then .ok (digits offset cs) else .error (.both .badNumber (offset + 1))

/-- The whole digits: a single zero, or digits that do not start with zero. A character that is no
digit counts as read. -/
def scanWhole (offset : Nat) (cs : List Char) : Except Break (List Char × Rest) :=
  match cs with
  | [] => .error (.either .endInValue .badNumber offset)
  | c :: rest =>
    if c = '0' then
      match rest with
      | d :: _ =>
        if d.isDigit then .error (.both .badNumber (offset + 2)) else .ok ([c], offset + 1, rest)
      | [] => .ok ([c], offset + 1, rest)
    else if c.isDigit then .ok (digits offset cs)
    else .error (.both .badNumber (offset + 1))

/-- The parts of the numeral at the start of a text. -/
def scan (offset : Nat) (cs : List Char) : Except Break (Numeral × Rest) := do
  let (negative, offset, cs) : Bool × Nat × List Char :=
    match cs with
    | '-' :: rest => (true, offset + 1, rest)
    | _ => (false, offset, cs)
  let (whole, offset, cs) ← scanWhole offset cs
  let (fraction, offset, cs) ←
    match cs with
    | '.' :: rest => scanFraction (offset + 1) rest
    | _ => .ok ([], offset, cs)
  match cs with
  | c :: rest =>
    if c = 'e' ∨ c = 'E' then
      let (exponent, offset, cs) ← scanExponent (offset + 1) rest
      return (⟨negative, whole, fraction, true, some exponent⟩, offset, cs)
    else return (⟨negative, whole, fraction, !fraction.isEmpty, none⟩, offset, cs)
  | [] => return (⟨negative, whole, fraction, !fraction.isEmpty, none⟩, offset, cs)

/-! ### Value -/

/-- The largest exponent that is counted out. -/
def maxExponent : Nat := 2147483647

/-- The value of an exponent, or the offset after the digit that makes it too large. -/
def Exponent.value (e : Exponent) : Except Nat Int :=
  let rec go (n offset : Nat) : List Char → Except Nat Int
    | [] => .ok (if e.negative then -(n : Int) else n)
    | c :: cs =>
      let next := 10 * n + (c.toNat - '0'.toNat)
      if maxExponent < next then .error (offset + 1) else go next (offset + 1) cs
  go 0 e.start e.digits

/-- The double that the parts denote; `stop` is the offset after the numeral. -/
def toDouble (n : Numeral) (stop : Nat) : Except Fault Double :=
  let digits := digitsValue (n.whole ++ n.fraction)
  let zero : Double := ⟨n.negative, 0, Double.minExponent⟩
  let nearest (power : Int) : Except Fault Double :=
    match Double.ofDecimal n.negative digits (power - n.fraction.length) with
    | some x => .ok x
    | none => .error ⟨.numberTooLarge, stop⟩
  match n.exponent with
  | none => nearest 0
  | some e =>
    match Exponent.value e with
    | .ok power => nearest power
    | .error offset =>
      if digits = 0 ∨ e.negative then .ok zero else .error ⟨.numberTooLarge, offset⟩

/-- Whole numbers below this bound are kept whole. -/
def wholeBound : Nat := 18446744073709551616

/-- Whole numbers down to the negative of this bound are kept whole. -/
def negativeBound : Nat := 9223372036854775808

/-- The number that the parts denote; `stop` is the offset after the numeral. -/
def value (n : Numeral) (stop : Nat) : Except Fault JsonNumber :=
  let magnitude := digitsValue n.whole
  if n.isDecimal then (n.toDouble stop).map .double
  else if !n.negative ∧ magnitude < wholeBound then .ok (.whole magnitude)
  else if n.negative ∧ 0 < magnitude ∧ magnitude ≤ negativeBound then
    .ok (.whole (-(magnitude : Int)))
  else (n.toDouble stop).map .double

end Numeral

end AbiBindings.Json
