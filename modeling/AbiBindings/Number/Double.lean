/-!
# Double-precision numbers

The finite double-precision numbers as a sign, a whole significand and a power of two, with the
nearest one to a given decimal number. All arithmetic is exact: a number is compared with its
neighbours as a ratio of natural numbers, and a number halfway between two goes to the one with the
even significand.
-/

namespace AbiBindings.Number

/-- The finite number `± significand · 2 ^ exponent`. -/
structure Double where
  negative : Bool
  significand : Nat
  exponent : Int
deriving Repr, DecidableEq

namespace Double

/-- A power of two. -/
def twoPow (n : Nat) : Nat := Nat.pow 2 n

/-- A power of ten. -/
def tenPow (n : Nat) : Nat := Nat.pow 10 n

/-- The smallest exponent of two. -/
def minExponent : Int := -1074

/-- The largest exponent of two. -/
def maxExponent : Int := 971

/-- The least significand of a number that is not among the smallest ones. -/
def minSignificand : Nat := 4503599627370496

/-- The ratio rounded to the nearest natural number, a half to the even one. -/
def roundHalfEven (num den : Nat) : Nat :=
  let quotient := num / den
  let twice := 2 * (num % den)
  if twice < den then quotient
  else if den < twice then quotient + 1
  else quotient + quotient % 2

/-- The exponent of the largest power of two that is at most `num / den`. -/
def binaryOrder (num den : Nat) : Int :=
  let guess : Int := num.log2 - den.log2
  let reached :=
    if 0 ≤ guess then den * twoPow guess.toNat ≤ num else den ≤ num * twoPow (-guess).toNat
  if reached then guess else guess - 1

/-- The double nearest to `± num / den`, or nothing if that is beyond the largest one. -/
def ofRatio (negative : Bool) (num den : Nat) : Option Double :=
  if num = 0 then some ⟨negative, 0, minExponent⟩
  else
    let exponent := max (binaryOrder num den - 52) minExponent
    let significand :=
      if 0 ≤ exponent then roundHalfEven num (den * twoPow exponent.toNat)
      else roundHalfEven (num * twoPow (-exponent).toNat) den
    let rounded : Double :=
      if significand = 2 * minSignificand then ⟨negative, minSignificand, exponent + 1⟩
      else ⟨negative, significand, exponent⟩
    if maxExponent < rounded.exponent then none else some rounded

/-- The double nearest to `± digits · 10 ^ power`, or nothing if that is beyond the largest one. The
order of magnitude settles the extreme cases before any power of ten is formed. -/
def ofDecimal (negative : Bool) (digits : Nat) (power : Int) : Option Double :=
  let order : Int := (Nat.toDigits 10 digits).length + power
  if digits = 0 ∨ order < -330 then some ⟨negative, 0, minExponent⟩
  else if 310 < order then none
  else if 0 ≤ power then ofRatio negative (digits * tenPow power.toNat) 1
  else ofRatio negative digits (tenPow (-power).toNat)

/-- The value, if it is whole. -/
def toInt? (x : Double) : Option Int :=
  let magnitude : Option Nat :=
    if 0 ≤ x.exponent then some (x.significand * twoPow x.exponent.toNat)
    else
      let den := twoPow (-x.exponent).toNat
      if x.significand % den = 0 then some (x.significand / den) else none
  magnitude.map fun n ↦ if x.negative then -(n : Int) else n

end Double

end AbiBindings.Number
