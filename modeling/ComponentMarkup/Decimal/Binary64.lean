/-!
# Binary floating-point numbers

A number is a sign, a significand below 2⁵³ and a power of two from 2⁻¹⁰⁷⁴ to 2⁹⁷¹. A quotient
of natural numbers is rounded to the nearest such number and a half goes to the even significand;
all arithmetic here is exact up to that one rounding.
-/

namespace ComponentMarkup.Decimal

/-- The number `± significand · 2 ^ exponent`. The significand is at least 2⁵² unless the exponent
is the least one. -/
structure Binary64 where
  negative : Bool
  significand : Nat
  exponent : Int
  deriving DecidableEq, Repr

namespace Binary64

def leastExponent : Int := -1074

def greatestExponent : Int := 971

/-- The least significand of 53 bits. -/
def leastNormal : Nat := Nat.pow 2 52

def zero : Binary64 := ⟨false, 0, leastExponent⟩

def isZero (x : Binary64) : Bool := x.significand = 0

def negate (x : Binary64) : Binary64 := { x with negative := !x.negative }

/-- The quotient of two natural numbers after rounding, a half to the even neighbour. -/
def roundDiv (num den : Nat) : Nat :=
  let quotient := num / den
  let twice := 2 * (num % den)
  if twice < den then quotient
  else if den < twice then quotient + 1
  else if quotient % 2 = 0 then quotient else quotient + 1

/-- `num / den` divided by a power of two, as a quotient. -/
def overPower (num den : Nat) (exponent : Int) : Nat × Nat :=
  (num * Nat.pow 2 (-exponent).toNat, den * Nat.pow 2 exponent.toNat)

/-- The power of two that leaves 53 bits of a positive quotient before the point. -/
def exponentFor (num den : Nat) : Int :=
  let guess : Int := Int.ofNat num.log2 - Int.ofNat den.log2 - 52
  let (n, d) := overPower num den guess
  max leastExponent (if n < d * leastNormal then guess - 1 else guess)

/-- The number nearest to a quotient of natural numbers, if it is not too large. -/
def ofQuotient? (num den : Nat) : Option Binary64 :=
  if num = 0 then some zero
  else
    let exponent := exponentFor num den
    let (n, d) := overPower num den exponent
    let significand := roundDiv n d
    let (significand, exponent) :=
      if significand = 2 * leastNormal then (leastNormal, exponent + 1) else (significand, exponent)
    if greatestExponent < exponent then none else some ⟨false, significand, exponent⟩

/-- The size of a number as a quotient of natural numbers. -/
def quotient (x : Binary64) : Nat × Nat :=
  (x.significand * Nat.pow 2 x.exponent.toNat, Nat.pow 2 (-x.exponent).toNat)

/-- The product of the sizes. -/
def mul? (x y : Binary64) : Option Binary64 :=
  ofQuotient? (x.quotient.1 * y.quotient.1) (x.quotient.2 * y.quotient.2)

/-- The quotient of the sizes; the second is not zero. -/
def div? (x y : Binary64) : Option Binary64 :=
  ofQuotient? (x.quotient.1 * y.quotient.2) (x.quotient.2 * y.quotient.1)

/-- The number nearest to a power of ten with a natural exponent. -/
def powerOfTen? (exponent : Nat) : Option Binary64 := ofQuotient? (Nat.pow 10 exponent) 1

/-- The largest power of ten, as an exponent, that is multiplied or divided by at once. -/
def stepExponent : Int := 308

/-- Multiplies or divides by a power of ten; `step` is the largest one that is used at once. -/
def scaleBy? (step x : Binary64) (exponent : Int) : Option Binary64 :=
  if stepExponent < exponent then
    if x.isZero then some x else none
  else if 0 ≤ exponent then
    (powerOfTen? exponent.toNat).bind (mul? x)
  else if -stepExponent ≤ exponent then
    (powerOfTen? (-exponent).toNat).bind (div? x)
  else if x.isZero then some x
  else
    match div? x step with
    | none => none
    | some smaller => scaleBy? step smaller (exponent + stepExponent)
termination_by exponent.natAbs
decreasing_by simp only [stepExponent] at *; omega

/-- Multiplies or divides by a power of ten, rounding after each step. -/
def scale? (x : Binary64) (exponent : Int) : Option Binary64 :=
  (powerOfTen? stepExponent.toNat).bind fun step => scaleBy? step x exponent

/-- `significand · 10 ^ exponent`: the significand is rounded first and then scaled. -/
def ofDecimal? (significand : Nat) (exponent : Int) : Option Binary64 := do
  (← ofQuotient? significand 1).scale? exponent

end Binary64

end ComponentMarkup.Decimal
