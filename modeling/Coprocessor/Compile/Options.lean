namespace Coprocessor.Compile

/-!
# Options of the compiler

Three independent choices. The default of each gives code that means what the
source says; `legacy` takes the other side of each and gives the code of older
listings.
-/

/-- What a comparison leaves as its result. -/
inductive ComparisonResult where
  /-- One if the relation holds and zero otherwise. -/
  | boolean
  /-- Zero in either case. -/
  | alwaysZero
  deriving Repr, DecidableEq

/-- How the quotient of a modulo is rounded to an integer. -/
inductive QuotientRounding where
  /-- Toward minus infinity, by a change of the control word. -/
  | floor
  /-- In the rounding mode that is set. -/
  | ambient
  deriving Repr, DecidableEq

/-- How the initial value of a literal is written. -/
inductive LiteralForm where
  /-- Always with a fraction. -/
  | real
  /-- As it stands in the source. -/
  | verbatim
  deriving Repr, DecidableEq

/-- The choices of one compilation. -/
structure Options where
  comparison : ComparisonResult := .boolean
  modulo : QuotientRounding := .floor
  literals : LiteralForm := .real
  deriving Repr, DecidableEq

/-- The options of older listings. -/
def Options.legacy : Options :=
  ⟨.alwaysZero, .ambient, .verbatim⟩

/--
Give a numeral without a point a fraction of zero, in front of its exponent.
-/
def withFraction (numeral : List Char) : List Char :=
  let beforeExponent :=
    fun character : Char => !(character == 'e' || character == 'E')
  let mantissa := numeral.takeWhile beforeExponent
  if mantissa.contains '.' then
    numeral
  else
    mantissa ++ '.' :: '0' :: numeral.dropWhile beforeExponent

end Coprocessor.Compile
