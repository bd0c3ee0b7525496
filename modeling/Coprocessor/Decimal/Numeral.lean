namespace Coprocessor.Decimal

/-!
# Decimal numerals

A numeral is an optional sign, decimal digits with an optional point (at least
one digit on either side of it) and an optional exponent. Reading one keeps its
exact value as a whole significand and a power of ten, so that nothing is
rounded here. A numeral is finite when its magnitude stays below the least
value that rounds to infinity in double precision.
-/

/-- An exact decimal value: the significand times ten to the exponent. -/
structure Numeral where
  negative : Bool
  significand : Nat
  exponent : Int
  deriving Repr, DecidableEq

/-- The value of a run of decimal digits. -/
def digitsValue (digits : List Char) : Nat :=
  digits.foldl (fun value digit => 10 * value + (digit.toNat - '0'.toNat)) 0

/-- The number of digits in the decimal writing of a number, zero having one. -/
def digitCount (value : Nat) : Nat :=
  (Nat.toDigits 10 value).length

/--
Take an optional sign from the front of a text: whether it is a
minus, and the rest.
-/
def takeSign : List Char → Bool × List Char
  | '-' :: rest => (true, rest)
  | '+' :: rest => (false, rest)
  | rest => (false, rest)

/-- Whether a text is a nonempty run of decimal digits. -/
def isDigits (text : List Char) : Bool :=
  !text.isEmpty && text.all Char.isDigit

/-- An integer with the given sign and magnitude. -/
def signed
    (negative : Bool)
    (magnitude : Nat) :
    Int :=
  if negative then -(magnitude : Int) else magnitude

/--
Read what follows the digits of a numeral: nothing, or a whole exponent part.
-/
def readExponent? : List Char → Option Int
  | [] => some 0
  | mark :: rest =>
      if mark = 'e' ∨ mark = 'E' then
        let (negative, digits) := takeSign rest
        if isDigits digits then
          some (signed negative (digitsValue digits))
        else
          none
      else
        none

/--
Split what follows the whole digits into the fraction digits and the rest.
-/
def takeFraction : List Char → List Char × List Char
  | '.' :: rest => (rest.takeWhile Char.isDigit, rest.dropWhile Char.isDigit)
  | rest => ([], rest)

namespace Numeral

/-- Read a text that is one numeral from end to end. -/
def read? (text : List Char) : Option Numeral :=
  let (negative, unsigned) := takeSign text
  let whole := unsigned.takeWhile Char.isDigit
  let (fraction, rest) := takeFraction (unsigned.dropWhile Char.isDigit)
  if whole.isEmpty && fraction.isEmpty then
    none
  else
    (readExponent? rest).map fun exponent =>
      { negative := negative
        significand := digitsValue (whole ++ fraction)
        exponent := exponent - fraction.length }

/-- The decimal order: the least power of ten above a nonzero magnitude. -/
def order (numeral : Numeral) : Int :=
  digitCount numeral.significand + numeral.exponent

/-- Whether the magnitude is below a bound. -/
def isBelow
    (numeral : Numeral)
    (bound : Nat) :
    Bool :=
  if 0 ≤ numeral.exponent then
    decide (numeral.significand * Nat.pow 10 numeral.exponent.toNat < bound)
  else
    decide (numeral.significand < bound * Nat.pow 10 (-numeral.exponent).toNat)

/-- The least magnitude that rounds to infinity in double precision. -/
def overflowBound : Nat :=
  Nat.pow 2 1024 - Nat.pow 2 970

/--
Whether the magnitude is below the overflow bound.

The bound has 309 digits, so the order alone decides unless it is 309; this
keeps a huge exponent from being expanded.
-/
def isFinite (numeral : Numeral) : Bool :=
  numeral.significand == 0 || decide (numeral.order < 309) ||
    (decide (numeral.order = 309) && numeral.isBelow overflowBound)

end Numeral

/--
Two to the power 63, the least number that is too large for a signed
integer of 64 bits.
-/
def integerBound : Int :=
  9223372036854775808

/--
Read an integer that fits in 64 bits: an optional sign and decimal digits.
-/
def readInteger? (text : List Char) : Option Int :=
  let (negative, digits) := takeSign text
  let value := signed negative (digitsValue digits)
  if isDigits digits && decide (-integerBound ≤ value) &&
      decide (value < integerBound) then
    some value
  else
    none

end Coprocessor.Decimal
