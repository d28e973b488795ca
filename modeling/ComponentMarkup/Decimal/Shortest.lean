import ComponentMarkup.Decimal.Binary64
import ComponentMarkup.Text.Basic

/-!
# The shortest decimal that reads back

The decimals that round to a number form an interval around it. Of these the one with the fewest
digits is written, of several the nearest, and of two equally near the even one. The grids with
1, 2, … digits are tried in turn; on each grid only the two neighbours of the number can be hit.

Numbers from 10⁻⁵ up to 10¹⁶ are written with a point and at least one digit behind it, all
others with one digit before the point and a signed power of ten.
-/

namespace ComponentMarkup.Decimal

/-- The decimal `digits · 10 ^ exponent`. -/
structure Digits where
  digits : Nat
  exponent : Int
  deriving DecidableEq, Repr

/-- A positive number and the ends of its interval, as numerators over one denominator. -/
structure Interval where
  low : Nat
  middle : Nat
  high : Nat
  denominator : Nat
  /-- Whether the ends belong to the interval. -/
  closed : Bool

namespace Interval

/-- The decimals that round to a positive number. The gap below a power of two is half the gap
above it, and the ends round to the number when its significand is even. -/
def of (x : Binary64) : Interval :=
  let up := Nat.pow 2 (x.exponent - 2).toNat
  let below :=
    if x.significand = Binary64.leastNormal && x.exponent ≠ Binary64.leastExponent then 1 else 2
  { low := (4 * x.significand - below) * up
    middle := 4 * x.significand * up
    high := (4 * x.significand + 2) * up
    denominator := Nat.pow 2 (2 - x.exponent).toNat
    closed := x.significand % 2 = 0 }

/-- The interval divided by a power of ten. -/
def scale (i : Interval) (exponent : Int) : Interval :=
  let up := Nat.pow 10 (-exponent).toNat
  { low := i.low * up
    middle := i.middle * up
    high := i.high * up
    denominator := i.denominator * Nat.pow 10 exponent.toNat
    closed := i.closed }

/-- A natural number lies in the interval. -/
def holds (i : Interval) (n : Nat) : Bool :=
  let scaled := n * i.denominator
  if i.closed then i.low ≤ scaled && scaled ≤ i.high else i.low < scaled && scaled < i.high

/-- The natural number of the interval that is nearest to its middle, the even one of two. -/
def nearest? (i : Interval) : Option Nat :=
  let below := i.middle / i.denominator
  let rest := i.middle % i.denominator
  match i.holds below, i.holds (below + 1) with
  | true, true =>
    if 2 * rest < i.denominator then some below
    else if i.denominator < 2 * rest then some (below + 1)
    else some (if below % 2 = 0 then below else below + 1)
  | true, false => some below
  | false, true => some (below + 1)
  | false, false => none

/-- The number of digits before the point; zero or less where the number is below one. -/
def magnitude (i : Interval) : Int :=
  if i.denominator ≤ i.middle then Int.ofNat (Nat.toDigits 10 (i.middle / i.denominator)).length
  else
    match (List.range 400).find? fun k => i.denominator ≤ i.middle * Nat.pow 10 (k + 1) with
    | some k => -Int.ofNat k
    | none => -400

end Interval

/-- The shortest decimal that rounds to a positive number. -/
def shortest (x : Binary64) : Digits :=
  let interval := Interval.of x
  let magnitude := interval.magnitude
  let hit := (List.range 17).findSome? fun count =>
    let exponent := magnitude - Int.ofNat (count + 1)
    ((interval.scale exponent).nearest?).map fun digits => ⟨digits, exponent⟩
  hit.getD ⟨0, 0⟩

/-- The digits of a decimal without the zeros at the end, and the place of the point: the number
of digits before it. -/
def Digits.significant (d : Digits) : Text × Int :=
  let all := Nat.toDigits 10 d.digits
  ((all.reverse.dropWhile (· = '0')).reverse, Int.ofNat all.length + d.exponent)

/-- The place of the point from which on numbers are written with a power of ten. -/
def greatestPlace : Int := 16

/-- The least place of the point that is written with zeros before the digits. -/
def leastPlace : Int := -4

/-- The exponent of ten with its sign. -/
def exponentText (exponent : Int) : Text :=
  (if exponent < 0 then '-' else '+') :: Nat.toDigits 10 exponent.natAbs

/-- Writes digits whose point stands behind the first `place` of them. -/
def placeText (digits : Text) (place : Int) : Text :=
  if place < leastPlace || greatestPlace < place then
    let fraction := digits.drop 1
    digits.take 1 ++ (if fraction.isEmpty then [] else '.' :: fraction)
      ++ 'e' :: exponentText (place - 1)
  else if place ≤ 0 then
    ['0', '.'] ++ List.replicate (-place).toNat '0' ++ digits
  else
    let count := place.toNat
    let whole := digits.take count ++ List.replicate (count - digits.length) '0'
    let fraction := digits.drop count
    whole ++ '.' :: (if fraction.isEmpty then ['0'] else fraction)

/-- The shortest text that reads back as the number. -/
def Binary64.text (x : Binary64) : Text :=
  let size :=
    if x.isZero then ['0', '.', '0']
    else
      let (digits, place) := (shortest x).significant
      placeText digits place
  if x.negative then '-' :: size else size

end ComponentMarkup.Decimal
