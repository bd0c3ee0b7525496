import Coprocessor.Decimal.Binary64

namespace Coprocessor.Decimal

/-!
# Shortest decimal writing of a double

The digits written for a double are the fewest that read back as the same
double; of several such writings the nearest to the double is taken, and of two
that are equally near the larger one. They are always set in positional
notation, without an exponent and without a fraction for a whole number.
-/

/-- A decimal: the digits, as a number, times ten to the exponent. -/
structure Digits where
  digits : Nat
  exponent : Int
  deriving Repr, DecidableEq

/--
The numbers that round to one positive double, in quarters of its last place.

Both ends belong to the interval when the significand is even. Below a power of
two the doubles are twice as dense, so the lower half-width shrinks there.
-/
structure RoundingInterval where
  lower : Nat
  upper : Nat
  closed : Bool
  quarter : Int
  deriving Repr, DecidableEq

namespace RoundingInterval

/-- The interval of a positive double. -/
def ofDouble
    (significand : Nat)
    (exponent : Int) :
    RoundingInterval :=
  let dense :=
    decide (significand = Nat.pow 2 52) &&
      decide (Binary64.leastExponent < exponent)
  { lower := 4 * significand - (if dense then 1 else 2)
    upper := 4 * significand + 2
    closed := significand % 2 == 0
    quarter := exponent - 2 }

/-- Whether a decimal lies in the interval. -/
def contains
    (interval : RoundingInterval)
    (decimal : Digits) :
    Bool :=
  let value := scaled 10 decimal.digits decimal.exponent
  let unit := scaled 2 1 interval.quarter
  let left := value.1 * unit.2
  let low := interval.lower * unit.1 * value.2
  let high := interval.upper * unit.1 * value.2
  if interval.closed then
    decide (low ≤ left) && decide (left ≤ high)
  else
    decide (low < left) && decide (left < high)

end RoundingInterval

/-- The exponent of the least power of ten that is above a positive fraction. -/
def decimalOrder (numerator denominator : Nat) : Int :=
  let estimate : Int := (digitCount numerator : Int) - digitCount denominator
  let power := scaled 10 1 estimate
  if denominator * power.1 ≤ numerator * power.2 then
    estimate + 1
  else
    estimate

/--
The best decimal with a given last place that reads back as a positive double.

Only the two neighbours of the double on that decimal grid can be best. If both
read back the nearer one is taken, the upper one in a tie.
-/
def gridHit?
    (significand : Nat)
    (exponent place : Int) :
    Option Digits :=
  let interval := RoundingInterval.ofDouble significand exponent
  let value := scaled 2 significand exponent
  let unit := scaled 10 1 place
  let numerator := value.1 * unit.2
  let denominator := value.2 * unit.1
  let below : Digits := ⟨numerator / denominator, place⟩
  let above : Digits := ⟨numerator / denominator + 1, place⟩
  match interval.contains below, interval.contains above with
  | true, true =>
      if 2 * (numerator % denominator) < denominator then
        some below
      else
        some above
  | true, false => some below
  | false, true => some above
  | false, false => none

/-- The exact decimal value of a double, which needs no rounding. -/
def exactDigits
    (significand : Nat)
    (exponent : Int) :
    Digits :=
  if 0 ≤ exponent then
    ⟨significand * Nat.pow 2 exponent.toNat, 0⟩
  else
    ⟨significand * Nat.pow 5 (-exponent).toNat, exponent⟩

/--
The shortest decimal that reads back as a positive double; seventeen
digits suffice.
-/
def shortestDigits
    (significand : Nat)
    (exponent : Int) :
    Digits :=
  let value := scaled 2 significand exponent
  let order := decimalOrder value.1 value.2
  ((List.range 17).findSome? fun shorter =>
    gridHit? significand exponent (order - (shorter + 1 : Nat))).getD
      (exactDigits significand exponent)

/-- Digit characters with a point before the given number of last places. -/
def placePoint
    (places : Nat)
    (digits : List Char) :
    List Char :=
  if places = 0 then
    digits
  else if places < digits.length then
    digits.take (digits.length - places) ++
      '.' :: digits.drop (digits.length - places)
  else
    '0' :: '.' :: List.replicate (places - digits.length) '0' ++ digits

/--
Positional notation of a positive decimal, without zeros at the end
of its fraction.
-/
def positional (decimal : Digits) : String :=
  let written := Nat.toDigits 10 decimal.digits
  let digits := (written.reverse.dropWhile (· == '0')).reverse
  let exponent := decimal.exponent + (written.length - digits.length : Nat)
  String.ofList
    (placePoint (-exponent).toNat (digits ++ List.replicate exponent.toNat '0'))

namespace Binary64

/--
The decimal text of a double; only a finite double or an infinity
shows its sign.
-/
def render : Binary64 → String
  | .finite negative significand exponent =>
      let magnitude :=
        if significand = 0 then
          "0"
        else
          positional (shortestDigits significand exponent)
      if negative then "-" ++ magnitude else magnitude
  | .infinite negative => if negative then "-inf" else "inf"
  | .notANumber => "NaN"

end Binary64

end Coprocessor.Decimal
