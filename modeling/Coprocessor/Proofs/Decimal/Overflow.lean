import Coprocessor.Decimal.Binary64
import Coprocessor.Proofs.Decimal.Value

namespace Coprocessor.Decimal

/-!
# Overflow of numerals

Whether a numeral is finite is decided without expanding its power of ten unless
it lies in the decade of the overflow bound. The answer is that of the exact
value, and rounding to double precision gives an infinity in exactly the other
cases: the bound lies halfway between the largest double and the next power of
two, and halfway rounds up because the largest significand is odd.
-/

/-- The overflow bound as a rational number. -/
def overflowValue : ℚ :=
  2 ^ 1024 - 2 ^ 970

theorem cast_pow_eq_zpow (base power : Nat) :
    ((base ^ power : Nat) : ℚ) = (base : ℚ) ^ (power : Int) := by
  rw [Nat.cast_pow, zpow_natCast]

theorem cast_pow_sub_pow
    (larger smaller : Nat)
    (ordered : smaller ≤ larger) :
    ((Nat.pow 2 larger - Nat.pow 2 smaller : Nat) : ℚ) =
      2 ^ larger - 2 ^ smaller := by
  have powers : 2 ^ smaller ≤ 2 ^ larger :=
    Nat.pow_le_pow_right Nat.two_pos ordered
  exact (Nat.cast_sub powers).trans
    (by rw [Nat.cast_pow, Nat.cast_pow, Nat.cast_ofNat])

theorem cast_overflowBound : (Numeral.overflowBound : ℚ) = overflowValue := by
  rw [overflowValue, ← cast_pow_sub_pow 1024 970 (by decide),
    Numeral.overflowBound]

/--
The bound is half a unit below a power of two, where a unit is two
to the exponent 971.
-/
theorem overflowBound_eq : Numeral.overflowBound = (2 ^ 54 - 1) * 2 ^ 970 := by
  decide +kernel

theorem pow_le_overflowValue
    {base power : Nat}
    (lower : base ^ power ≤ Numeral.overflowBound) :
    (base : ℚ) ^ (power : Int) ≤ overflowValue := by
  rw [← cast_pow_eq_zpow, ← cast_overflowBound]
  exact Nat.cast_le.mpr lower

theorem overflowValue_le_pow
    {base power : Nat}
    (upper : Numeral.overflowBound ≤ base ^ power) :
    overflowValue ≤ (base : ℚ) ^ (power : Int) := by
  rw [← cast_pow_eq_zpow, ← cast_overflowBound]
  exact Nat.cast_le.mpr upper

section Powers

variable
    (base : Nat)
    (significand : Nat)
    (exponent : Int)

theorem scaled_snd_pos (positive : 0 < base) :
    0 < (scaled base significand exponent).2 := by
  rw [scaled]
  split
  · exact Nat.one_pos
  · exact Nat.pow_pos positive

/-- A scaled number is its significand times the power of the base. -/
theorem cast_scaled (positive : 0 < base) :
    ((scaled base significand exponent).1 : ℚ) =
      significand * (base : ℚ) ^ exponent *
        (scaled base significand exponent).2 := by
  have nonzero : (base : ℚ) ≠ 0 := by
    exact_mod_cast positive.ne'
  rw [scaled]
  split
  case isTrue whole =>
      obtain ⟨power, rfl⟩ := Int.eq_ofNat_of_zero_le whole
      simp
  case isFalse fractional =>
      obtain ⟨power, rfl⟩ : ∃ power : Nat, exponent = -(power : Int) :=
        ⟨(-exponent).toNat, by omega⟩
      simp [nonzero]

end Powers

namespace Numeral

/-- The magnitude of a numeral. -/
theorem abs_value (numeral : Numeral) :
    |numeral.value| = numeral.significand * 10 ^ numeral.exponent := by
  have positive : (0 : ℚ) < 10 ^ numeral.exponent := by
    positivity
  rw [value, abs_mul, abs_of_pos positive, signed]
  split <;> simp

/-- A magnitude lies in the decade of its order. -/
theorem abs_value_lt_order (numeral : Numeral) :
    |numeral.value| < 10 ^ numeral.order := by
  have short : numeral.significand < 10 ^ digitCount numeral.significand :=
    (Nat.length_toDigits_le_iff (by decide) Nat.length_toDigits_pos).mp
      (Nat.le_refl _)
  have cast :
      (numeral.significand : ℚ) < 10 ^ digitCount numeral.significand := by
    exact_mod_cast short
  rw [abs_value, order, zpow_add₀ (by norm_num), zpow_natCast]
  gcongr

theorem order_le_abs_value
    {numeral : Numeral}
    (nonzero : numeral.significand ≠ 0) :
    10 ^ (numeral.order - 1) ≤ |numeral.value| := by
  have long :
      10 ^ (digitCount numeral.significand - 1) ≤ numeral.significand := by
    by_contra below
    rcases Nat.eq_zero_or_pos (digitCount numeral.significand - 1) with
      none | some
    · rw [none] at below
      omega
    · have shorter :=
        (Nat.length_toDigits_le_iff (by decide) some).mpr
          (Nat.lt_of_not_le below)
      have positive : 0 < digitCount numeral.significand :=
        Nat.length_toDigits_pos
      simp only [digitCount] at shorter positive
      omega
  have cast :
      (10 : ℚ) ^ (digitCount numeral.significand - 1) ≤
        numeral.significand := by
    exact_mod_cast long
  have split : numeral.order - 1 =
      ((digitCount numeral.significand - 1 : Nat) : Int) +
        numeral.exponent := by
    have positive : 0 < digitCount numeral.significand :=
      Nat.length_toDigits_pos
    rw [order]
    omega
  rw [abs_value, split, zpow_add₀ (by norm_num), zpow_natCast]
  gcongr

theorem isBelow_iff
    (numeral : Numeral)
    (bound : Nat) :
    numeral.isBelow bound = true ↔ |numeral.value| < bound := by
  rw [abs_value, isBelow]
  split
  case isTrue whole =>
      obtain ⟨power, same⟩ := Int.eq_ofNat_of_zero_le whole
      rw [decide_eq_true_eq, same, ← Nat.cast_lt (α := ℚ)]
      simp
  case isFalse fractional =>
      obtain ⟨power, same⟩ : ∃ power : Nat, numeral.exponent = -(power : Int) :=
        ⟨(-numeral.exponent).toNat, by omega⟩
      have positive : (0 : ℚ) < 10 ^ power := by
        positivity
      rw [decide_eq_true_eq, same, ← Nat.cast_lt (α := ℚ), zpow_neg,
        zpow_natCast, ← div_eq_mul_inv, div_lt_iff₀ positive]
      simp

/-- A numeral is finite exactly if its magnitude is below the overflow bound. -/
theorem isFinite_iff (numeral : Numeral) :
    numeral.isFinite = true ↔ |numeral.value| < overflowValue := by
  have above : (10 : ℚ) ^ (308 : Int) ≤ overflowValue :=
    pow_le_overflowValue (by decide +kernel)
  have below : overflowValue ≤ (10 : ℚ) ^ (309 : Int) :=
    overflowValue_le_pow (by decide +kernel)
  simp only [isFinite, Bool.or_eq_true, Bool.and_eq_true, beq_iff_eq,
    decide_eq_true_eq, isBelow_iff, cast_overflowBound]
  -- The order decides outside the decade of the bound, and the
  -- comparison inside it.
  by_cases zero : numeral.significand = 0
  · have positive : (0 : ℚ) < overflowValue :=
      lt_of_lt_of_le (by positivity) above
    simp [abs_value, zero, positive]
  · rcases lt_trichotomy numeral.order 309 with smaller | same | larger
    · have decade : (10 : ℚ) ^ numeral.order ≤ 10 ^ (308 : Int) :=
        zpow_le_zpow_right₀ (by norm_num) (by omega)
      have less := (numeral.abs_value_lt_order.trans_le decade).trans_le above
      simp [smaller, less]
    · simp [zero, same]
    · have decade : (10 : ℚ) ^ (309 : Int) ≤ 10 ^ (numeral.order - 1) :=
        zpow_le_zpow_right₀ (by norm_num) (by omega)
      have more := below.trans (decade.trans (order_le_abs_value zero))
      have notSmaller : ¬numeral.order < 309 := by omega
      have notSame : numeral.order ≠ 309 := by omega
      simp [zero, notSmaller, notSame, more]

end Numeral

/-- A quotient is rounded up to an even number from halfway below it on. -/
theorem even_le_divideToEven_iff
    {numerator denominator bound : Nat}
    (positive : 0 < denominator)
    (even : bound % 2 = 0)
    (nonzero : 0 < bound) :
    bound ≤ divideToEven numerator denominator ↔
      2 * bound * denominator ≤ 2 * numerator + denominator := by
  have parts := Nat.div_add_mod numerator denominator
  have small := Nat.mod_lt numerator positive
  rw [divideToEven]
  generalize numerator / denominator = quotient at parts ⊢
  generalize numerator % denominator = remainder at parts small ⊢
  subst parts
  rcases lt_trichotomy (quotient + 1) bound with below | rfl | above
  · have upTo : 2 * (quotient + 2) * denominator ≤ 2 * bound * denominator := by
      gcongr
      omega
    have far : ¬2 * bound * denominator ≤
        2 * (denominator * quotient + remainder) + denominator := by
      nlinarith
    refine iff_of_false ?_ far
    split_ifs <;> omega
  · have half : 2 * (quotient + 1) * denominator ≤
        2 * (denominator * quotient + remainder) + denominator ↔
          denominator ≤ 2 * remainder := by
      constructor <;> intro <;> nlinarith
    rw [half]
    split_ifs <;> omega
  · have upTo : 2 * bound * denominator ≤ 2 * quotient * denominator := by
      gcongr
      omega
    have near : 2 * bound * denominator ≤
        2 * (denominator * quotient + remainder) + denominator := by
      nlinarith
    refine iff_of_true ?_ near
    split_ifs <;> omega

theorem divideToEven_le (numerator denominator : Nat) :
    divideToEven numerator denominator ≤ numerator / denominator + 1 := by
  rw [divideToEven]
  split_ifs <;> omega

/--
The quotient by twice a half is carried to 53 bits from half a unit below on.
-/
theorem divideToEven_carried_iff
    {numerator half : Nat}
    (positive : 0 < half)
    (fits : numerator < 2 ^ 54 * half) :
    divideToEven numerator (2 * half) = 2 ^ 53 ↔
      (2 ^ 54 - 1) * half ≤ numerator := by
  have unit : 0 < 2 * half := Nat.mul_pos Nat.two_pos positive
  have quotient : numerator / (2 * half) < 2 ^ 53 := by
    rw [Nat.div_lt_iff_lt_mul unit]
    omega
  have notAbove := divideToEven_le numerator (2 * half)
  have reached : 2 ^ 53 ≤ divideToEven numerator (2 * half) ↔ _ :=
    even_le_divideToEven_iff unit (by decide) (by decide)
  have atBound : divideToEven numerator (2 * half) = 2 ^ 53 ↔
      2 ^ 53 ≤ divideToEven numerator (2 * half) := by
    omega
  rw [atBound, reached]
  omega

/-- A positive number lies between two powers of two. -/
theorem log2_bounds
    {number : Nat}
    (positive : 0 < number) :
    (2 : ℚ) ^ (number.log2 : Int) ≤ number ∧
      (number : ℚ) < 2 ^ ((number.log2 : Int) + 1) := by
  have lower := Nat.log2_self_le positive.ne'
  have upper : number < 2 ^ (number.log2 + 1) := Nat.lt_log2_self
  rw [zpow_natCast, ← Nat.cast_succ, zpow_natCast]
  exact ⟨by exact_mod_cast lower, by exact_mod_cast upper⟩

/--
A positive fraction lies between the power of two of its order and the next one.
-/
theorem binaryOrder_bounds
    {numerator denominator : Nat}
    (positive : 0 < numerator)
    (nonzero : 0 < denominator) :
    (2 : ℚ) ^ binaryOrder numerator denominator ≤ numerator / denominator ∧
      (numerator / denominator : ℚ) <
        2 ^ (binaryOrder numerator denominator + 1) := by
  have two : (2 : ℚ) ≠ 0 := two_ne_zero
  have below : (0 : ℚ) < denominator := by
    exact_mod_cast nonzero
  obtain ⟨numeratorLower, numeratorUpper⟩ := log2_bounds positive
  obtain ⟨denominatorLower, denominatorUpper⟩ := log2_bounds nonzero
  rw [binaryOrder]
  generalize found : (numerator.log2 : Int) - denominator.log2 = estimate
  have lower : (2 : ℚ) ^ (estimate - 1) ≤ numerator / denominator := by
    rw [le_div_iff₀ below]
    calc (2 : ℚ) ^ (estimate - 1) * denominator
      _ ≤ 2 ^ (estimate - 1) * 2 ^ ((denominator.log2 : Int) + 1) := by gcongr
      _ = 2 ^ (numerator.log2 : Int) := by
          rw [← zpow_add₀ two, ← found]
          congr 1
          omega
      _ ≤ numerator := numeratorLower
  have upper : (numerator / denominator : ℚ) < 2 ^ (estimate + 1) := by
    rw [div_lt_iff₀ below]
    calc (numerator : ℚ)
      _ < 2 ^ ((numerator.log2 : Int) + 1) := numeratorUpper
      _ = 2 ^ (estimate + 1) * 2 ^ (denominator.log2 : Int) := by
          rw [← zpow_add₀ two, ← found]
          congr 1
          omega
      _ ≤ 2 ^ (estimate + 1) * denominator := by gcongr
  have reached :
      denominator * (scaled 2 1 estimate).1 ≤
        numerator * (scaled 2 1 estimate).2 ↔
      (2 : ℚ) ^ estimate ≤ numerator / denominator := by
    have unit : (0 : ℚ) < (scaled 2 1 estimate).2 := by
      exact_mod_cast scaled_snd_pos 2 1 estimate Nat.two_pos
    rw [le_div_iff₀ below, ← Nat.cast_le (α := ℚ), Nat.cast_mul, Nat.cast_mul,
      cast_scaled 2 1 estimate Nat.two_pos, Nat.cast_one, one_mul,
      Nat.cast_ofNat, ← mul_assoc,
      mul_comm (denominator : ℚ), mul_le_mul_iff_of_pos_right unit]
  split
  case isTrue isReached =>
      exact ⟨reached.mp isReached, upper⟩
  case isFalse notReached =>
      refine ⟨lower, ?_⟩
      rw [sub_add_cancel]
      exact lt_of_not_ge (mt reached.mpr notReached)

namespace Binary64

/-- Whether a double is a number that is not infinite. -/
def isFinite : Binary64 → Bool
  | .finite _ _ _ => true
  | .infinite _ | .notANumber => false

/-- The exponent at which a fraction is rounded. -/
def roundingExponent (numerator denominator : Nat) : Int :=
  max (binaryOrder numerator denominator - 52) leastExponent

/-- The significand to which a fraction is rounded, before a carry. -/
def roundedSignificand (numerator denominator : Nat) : Nat :=
  let unit := scaled 2 1 (roundingExponent numerator denominator)
  divideToEven (numerator * unit.2) (denominator * unit.1)

/-- A fraction overflows if it is rounded beyond the greatest exponent. -/
def Overflows (numerator denominator : Nat) : Prop :=
  greatestExponent <
    if roundedSignificand numerator denominator = 2 ^ 53 then
      roundingExponent numerator denominator + 1
    else
      roundingExponent numerator denominator

section Fraction

variable
    {numerator denominator : Nat}
    (positive : 0 < numerator)

include positive

theorem ofFraction_of_overflows
    (negative : Bool)
    (overflows : Overflows numerator denominator) :
    ofFraction negative numerator denominator = .infinite negative := by
  rw [ofFraction, if_neg positive.ne']
  simp only [decide_eq_true_eq]
  exact if_pos overflows

theorem isFinite_ofFraction
    (negative : Bool)
    (fits : ¬Overflows numerator denominator) :
    (ofFraction negative numerator denominator).isFinite = true := by
  rw [ofFraction, if_neg positive.ne']
  simp only [decide_eq_true_eq]
  exact (congrArg isFinite (if_neg fits)).trans rfl

variable (nonzero : 0 < denominator)

include nonzero

/--
A fraction in the highest binade is carried into the next from the
overflow bound on.
-/
theorem roundedSignificand_highest
    (highest : binaryOrder numerator denominator = 1023) :
    roundedSignificand numerator denominator = 2 ^ 53 ↔
      overflowValue ≤ (numerator / denominator : ℚ) := by
  have below : (0 : ℚ) < denominator := by
    exact_mod_cast nonzero
  have upper := (binaryOrder_bounds positive nonzero).2
  have exponent : roundingExponent numerator denominator = (971 : Nat) := by
    rw [roundingExponent, highest]
    rfl
  have unit : scaled 2 1 (971 : Nat) = (2 * 2 ^ 970, 1) := by
    decide +kernel
  have fits : numerator < 2 ^ 54 * (2 ^ 970 * denominator) := by
    have binade : 2 ^ 54 * 2 ^ 970 = 2 ^ 1024 := by
      decide +kernel
    rw [← Nat.mul_assoc, binade, ← Nat.cast_lt (α := ℚ), Nat.cast_mul,
      cast_pow_eq_zpow, ← div_lt_iff₀ below]
    rw [highest] at upper
    exact upper
  have half : 0 < 2 ^ 970 * denominator :=
    Nat.mul_pos (pow_pos Nat.two_pos 970) nonzero
  have scale : denominator * (2 * 2 ^ 970) = 2 * (2 ^ 970 * denominator) := by
    rw [Nat.mul_comm, Nat.mul_assoc]
  rw [roundedSignificand, exponent, unit]
  rw [Nat.mul_one, scale, divideToEven_carried_iff half fits, ← Nat.mul_assoc,
    ← overflowBound_eq, le_div_iff₀ below, ← cast_overflowBound, ← Nat.cast_mul,
    Nat.cast_le]

theorem overflows_iff :
    Overflows numerator denominator ↔
      overflowValue ≤ (numerator / denominator : ℚ) := by
  obtain ⟨lower, upper⟩ := binaryOrder_bounds positive nonzero
  have above : (2 : ℚ) ^ (1023 : Int) ≤ overflowValue :=
    pow_le_overflowValue (by decide +kernel)
  have below : overflowValue ≤ (2 : ℚ) ^ (1024 : Int) :=
    overflowValue_le_pow (by decide +kernel)
  -- Below the highest binade a carry stays within it, and above it
  -- none is needed.
  rcases lt_trichotomy (binaryOrder numerator denominator) 1023 with
    smaller | highest | larger
  · have binade :
        (2 : ℚ) ^ (binaryOrder numerator denominator + 1) ≤ 2 ^ (1023 : Int) :=
      zpow_le_zpow_right₀ (by norm_num) (by omega)
    refine iff_of_false ?_ (not_le.mpr (upper.trans_le (binade.trans above)))
    rw [Overflows, roundingExponent, greatestExponent, leastExponent]
    split_ifs <;> omega
  · rw [← roundedSignificand_highest positive nonzero highest, Overflows,
      roundingExponent, highest, greatestExponent, leastExponent]
    split
    case isTrue carried =>
        exact iff_of_true (by decide) carried
    case isFalse notCarried =>
        exact iff_of_false (by decide) notCarried
  · have binade :
        (2 : ℚ) ^ (1024 : Int) ≤ 2 ^ binaryOrder numerator denominator :=
      zpow_le_zpow_right₀ (by norm_num) (by omega)
    refine iff_of_true ?_ ((below.trans binade).trans lower)
    rw [Overflows, roundingExponent, greatestExponent, leastExponent]
    split_ifs <;> omega

end Fraction

/-- The fraction of a numeral overflows exactly if the numeral is not finite. -/
theorem overflows_scaled_iff
    {numeral : Numeral}
    (nonzero : numeral.significand ≠ 0) :
    0 < (scaled 10 numeral.significand numeral.exponent).1 ∧
      (Overflows (scaled 10 numeral.significand numeral.exponent).1
          (scaled 10 numeral.significand numeral.exponent).2 ↔
        numeral.isFinite = false) := by
  have ten : 0 < 10 := by
    decide
  have below := scaled_snd_pos 10 numeral.significand numeral.exponent ten
  have cast := cast_scaled 10 numeral.significand numeral.exponent ten
  have significant : (0 : ℚ) < numeral.significand := by
    exact_mod_cast Nat.pos_of_ne_zero nonzero
  generalize scaled 10 numeral.significand numeral.exponent =
    fraction at below cast ⊢
  have denominator : (0 : ℚ) < fraction.2 := by
    exact_mod_cast below
  have positive : 0 < fraction.1 := by
    rw [← Nat.cast_pos (α := ℚ), cast]
    positivity
  have value : (fraction.1 / fraction.2 : ℚ) = |numeral.value| := by
    rw [cast, mul_div_cancel_right₀ _ denominator.ne', Numeral.abs_value,
      Nat.cast_ofNat]
  refine ⟨positive, ?_⟩
  rw [overflows_iff positive below, value, ← not_lt, ← Numeral.isFinite_iff,
    Bool.not_eq_true]

/-- A numeral that is not finite is rounded to the infinity of its sign. -/
theorem ofNumeral_of_not_isFinite
    {numeral : Numeral}
    (beyond : numeral.isFinite = false) :
    ofNumeral numeral = .infinite numeral.negative := by
  have large := beyond
  simp only [Numeral.isFinite, Bool.or_eq_false_iff, beq_eq_false_iff_ne,
    decide_eq_false_iff_not] at large
  obtain ⟨⟨nonzero, notSmall⟩, -⟩ := large
  obtain ⟨positive, overflows⟩ := overflows_scaled_iff nonzero
  rw [ofNumeral, if_neg (by omega)]
  split
  · rfl
  · exact ofFraction_of_overflows positive numeral.negative
      (overflows.mpr beyond)

/-- A finite numeral is rounded to a finite double. -/
theorem isFinite_ofNumeral
    {numeral : Numeral}
    (finite : numeral.isFinite = true) :
    (ofNumeral numeral).isFinite = true := by
  rw [ofNumeral]
  split
  · rfl
  case isFalse notZero =>
      obtain ⟨nonzero, -⟩ := not_or.mp notZero
      have small : ¬400 < numeral.order := by
        intro large
        simp [Numeral.isFinite, nonzero] at finite
        omega
      obtain ⟨positive, overflows⟩ := overflows_scaled_iff nonzero
      rw [if_neg small]
      refine isFinite_ofFraction positive numeral.negative fun beyond => ?_
      rw [overflows.mp beyond] at finite
      cases finite

end Binary64

end Coprocessor.Decimal
