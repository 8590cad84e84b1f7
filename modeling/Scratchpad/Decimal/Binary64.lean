/-! Binary floating-point numbers of 64 bits, without sign, as far as reading and naming them asks
for. Products and quotients are taken exactly and rounded once, to the nearest number.
-/

namespace Scratchpad.Decimal

/-- The number `significand * 2 ^ exponent`, without sign. The significand has at most 53 bits, and
fewer only if the exponent is the least.
-/
structure Binary64 where
  significand : Nat
  exponent : Int
deriving DecidableEq

namespace Binary64

/-- The number of bits of a significand. -/
def precision : Nat := 53

/-- The least exponent. -/
def leastExponent : Int := -1074

/-- The greatest exponent. -/
def greatestExponent : Int := 971

/-- Zero. -/
def zero : Binary64 := ⟨0, leastExponent⟩

/-- What stands above the line of a number as a fraction. -/
def numerator (number : Binary64) : Nat :=
  number.significand * Nat.pow 2 number.exponent.toNat

/-- What stands below the line of a number as a fraction. -/
def denominator (number : Binary64) : Nat :=
  Nat.pow 2 (-number.exponent).toNat

------------------------------------------------------------------------------------------
-- Rounding
------------------------------------------------------------------------------------------

/-- The quotient rounded to the nearest number, or to the even one of two that are as near. -/
def roundedQuotient (numerator denominator : Nat) : Nat :=
  let quotient := numerator / denominator
  let twice := 2 * (numerator % denominator)
  if denominator < twice ∨ (twice = denominator ∧ quotient % 2 = 1) then
    quotient + 1
  else
    quotient

/-- The number nearest to a quotient that is not zero, if it is not beyond all numbers. -/
def ofPositive? (numerator denominator : Nat) : Option Binary64 :=
  let scaled (exponent : Int) : Nat × Nat :=
    (numerator * Nat.pow 2 (-exponent).toNat, denominator * Nat.pow 2 exponent.toNat)
  let guess : Int := (numerator.log2 : Int) - denominator.log2 - precision
  let (top, bottom) := scaled guess
  let exponent := if top / bottom < Nat.pow 2 precision then guess else guess + 1
  let exponent := max exponent leastExponent
  let (top, bottom) := scaled exponent
  let significand := roundedQuotient top bottom
  let carried : Binary64 :=
    if significand < Nat.pow 2 precision then
      ⟨significand, exponent⟩
    else
      ⟨significand / 2, exponent + 1⟩
  if carried.exponent ≤ greatestExponent then some carried else none

/-- The number nearest to a quotient, if it is not beyond all numbers. -/
def ofQuotient? (numerator denominator : Nat) : Option Binary64 :=
  if numerator = 0 then some zero else ofPositive? numerator denominator

/-- The number nearest to a natural number, if it is not beyond all numbers. -/
def ofNat? (value : Nat) : Option Binary64 :=
  ofQuotient? value 1

------------------------------------------------------------------------------------------
-- Arithmetic
------------------------------------------------------------------------------------------

/-- The number nearest to a product, if it is not beyond all numbers. -/
def mul? (left right : Binary64) : Option Binary64 :=
  ofQuotient? (left.numerator * right.numerator) (left.denominator * right.denominator)

/-- The number nearest to a quotient, if it is not beyond all numbers. -/
def div? (left right : Binary64) : Option Binary64 :=
  ofQuotient? (left.numerator * right.denominator) (left.denominator * right.numerator)

/-- The greatest exponent of a power of ten that is not beyond all numbers. -/
def greatestPower : Nat := 308

/-- The number nearest to a power of ten. -/
def powerOfTen? (exponent : Nat) : Option Binary64 :=
  ofNat? (Nat.pow 10 exponent)

/-- A number divided by the greatest power of ten a number of times, or until it is zero. -/
def shrink? : (times : Nat) → Binary64 → Option Binary64
  | 0, number => some number
  | times + 1, number =>
    if number.significand = 0 then
      some zero
    else
      ((powerOfTen? greatestPower).bind number.div?).bind (shrink? times)

/-- A number times a power of ten, if it is not beyond all numbers. The power is rounded and so is
the result, which therefore need not be nearest to the exact one. Where the exponent is too low for
one division, the greatest power is divided by first.
-/
def scale? (number : Binary64) (exponent : Int) : Option Binary64 :=
  if number.significand = 0 then
    some zero
  else if (greatestPower : Int) < exponent then
    none
  else if 0 ≤ exponent then
    (powerOfTen? exponent.toNat).bind number.mul?
  else
    let drop := (-exponent).toNat
    let times := (drop - 1) / greatestPower
    (number.shrink? times).bind fun shrunk =>
      (powerOfTen? (drop - times * greatestPower)).bind shrunk.div?

end Binary64

end Scratchpad.Decimal
