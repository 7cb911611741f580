import AbiBindings.Number.Double

/-!
# The shortest decimal text of a double

A double is printed with the fewest digits that read back as it. The reals that read back as a given
double form an interval around it, whose ends belong to it when the significand is even. For each
number of digits the two decimal neighbours of the value are tried; the first count with a neighbour
inside the interval is the answer, the nearer of two wins, and a tie goes to the even one.
-/

namespace AbiBindings.Number

/-- The number `digits · 10 ^ power`. -/
structure Decimal where
  digits : Nat
  power : Int
deriving Repr, DecidableEq

namespace Decimal

/-- Drops trailing zero digits, at most `n` of them. -/
def dropZeros : Nat → Decimal → Decimal
  | 0, d => d
  | n + 1, d => if d.digits % 10 = 0 then dropZeros n ⟨d.digits / 10, d.power + 1⟩ else d

end Decimal

namespace Double

/-- A value with the interval of reals that read back as it, all over one denominator. -/
structure Interval where
  low : Nat
  value : Nat
  high : Nat
  den : Nat
  /-- The ends read back as the value too. -/
  closed : Bool

/-- The interval of a double other than zero. Below a power of two the neighbour is half as far. -/
def interval (x : Double) : Interval :=
  let scale := twoPow (x.exponent - 2).toNat
  let below := if x.significand = minSignificand ∧ minExponent < x.exponent then 1 else 2
  { low := (4 * x.significand - below) * scale
    value := 4 * x.significand * scale
    high := (4 * x.significand + 2) * scale
    den := twoPow (2 - x.exponent).toNat
    closed := x.significand % 2 = 0 }

/-- The exponent of the largest power of ten that is at most `num / den`. -/
def decimalOrder (num den : Nat) : Int :=
  if den ≤ num then (Nat.toDigits 10 (num / den)).length - 1
  else
    match (List.range 400).find? fun k ↦ den ≤ num * tenPow k with
    | some k => -k
    | none => 0

/-- The value's best neighbour with the given number of digits, if one reads back. -/
def neighbour? (i : Interval) (order : Int) (count : Nat) : Option Decimal :=
  let power := order - (count - 1 : Nat)
  let up := tenPow (-power).toNat
  let unit := tenPow power.toNat * i.den
  let floor := i.value * up / unit
  let inside := fun (n : Nat) ↦
    if i.closed then i.low * up ≤ n * unit && n * unit ≤ i.high * up
    else i.low * up < n * unit && n * unit < i.high * up
  let below := i.value * up - floor * unit
  let above := (floor + 1) * unit - i.value * up
  let lowerFirst := below < above || (below = above && floor % 2 = 0)
  let candidates := if lowerFirst then [floor, floor + 1] else [floor + 1, floor]
  (candidates.find? inside).map (⟨·, power⟩)

/-- The shortest decimal that reads back as the double; seventeen digits always do. -/
def shortest (x : Double) : Decimal :=
  if x.significand = 0 then ⟨0, 0⟩
  else
    let i := x.interval
    let order := decimalOrder i.value i.den
    match (List.range 17).findSome? fun k ↦ neighbour? i order (k + 1) with
    | some d => d.dropZeros 17
    | none => ⟨0, 0⟩

end Double

end AbiBindings.Number
