import Coprocessor.Decimal.Numeral

namespace Coprocessor.Decimal

/-!
# Double precision numbers

A finite double is a sign, a significand of at most 53 bits and a power of two
that is at least -1074. The number nearest to a decimal numeral is found in
exact arithmetic; a numeral halfway between two doubles goes to the one with the
even significand, and one beyond the largest double becomes an infinity.
-/

/--
A double precision number; a finite one is its significand times two
to the exponent.
-/
inductive Binary64 where
  | finite (negative : Bool) (significand : Nat) (exponent : Int)
  | infinite (negative : Bool)
  | notANumber
  deriving Repr, DecidableEq

/-- The numerator and denominator of a significand times a power of the base. -/
def scaled
    (base significand : Nat)
    (exponent : Int) :
    Nat × Nat :=
  if 0 ≤ exponent then
    (significand * Nat.pow base exponent.toNat, 1)
  else
    (significand, Nat.pow base (-exponent).toNat)

/-- Divide, rounding to the nearest integer and a half to the even neighbour. -/
def divideToEven (numerator denominator : Nat) : Nat :=
  let quotient := numerator / denominator
  let remainder := numerator % denominator
  if 2 * remainder < denominator then
    quotient
  else if denominator < 2 * remainder then
    quotient + 1
  else
    quotient + quotient % 2

/--
The exponent of the largest power of two that is not above a positive fraction.
-/
def binaryOrder (numerator denominator : Nat) : Int :=
  let estimate : Int := (numerator.log2 : Int) - denominator.log2
  let power := scaled 2 1 estimate
  if denominator * power.1 ≤ numerator * power.2 then
    estimate
  else
    estimate - 1

namespace Binary64

/-- The least exponent of a finite double. -/
def leastExponent : Int :=
  -1074

/-- The greatest exponent of a finite double. -/
def greatestExponent : Int :=
  971

/-- Zero with a sign. -/
def zero (negative : Bool) : Binary64 :=
  .finite negative 0 leastExponent

/--
The double nearest to a fraction, which is given by its magnitude and its sign.
-/
def ofFraction
    (negative : Bool)
    (numerator denominator : Nat) :
    Binary64 :=
  if numerator = 0 then
    zero negative
  else
    let exponent := max (binaryOrder numerator denominator - 52) leastExponent
    let unit := scaled 2 1 exponent
    let rounded := divideToEven (numerator * unit.2) (denominator * unit.1)
    let carried := decide (rounded = Nat.pow 2 53)
    let significand := if carried then Nat.pow 2 52 else rounded
    let power := if carried then exponent + 1 else exponent
    if greatestExponent < power then
      .infinite negative
    else
      .finite negative significand power

/--
The double nearest to a numeral.

The order settles numerals that are far too large or too small, so their
powers of ten are never expanded.
-/
def ofNumeral (numeral : Numeral) : Binary64 :=
  if numeral.significand = 0 ∨ numeral.order < -400 then
    zero numeral.negative
  else if 400 < numeral.order then
    .infinite numeral.negative
  else
    let fraction := scaled 10 numeral.significand numeral.exponent
    ofFraction numeral.negative fraction.1 fraction.2

/--
Read a number: a numeral, or the name of an infinity or of no number
in any letter case.
-/
def read? (text : List Char) : Option Binary64 :=
  let (negative, unsigned) := takeSign text
  let word := String.ofList (unsigned.map Char.toLower)
  if word = "inf" ∨ word = "infinity" then
    some (.infinite negative)
  else if word = "nan" then
    some .notANumber
  else
    (Numeral.read? text).map ofNumeral

end Binary64

end Coprocessor.Decimal
