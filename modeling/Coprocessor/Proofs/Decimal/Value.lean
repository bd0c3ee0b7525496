import Coprocessor.Compile.Expr
import Mathlib

namespace Coprocessor

/-!
# Values of numerals

A numeral stands for a rational number. The compiler may write a numeral with a
fraction that the source did not give it, and this leaves its value as it is:
the zero that is added to the digits is taken back by the exponent.
-/

namespace Decimal

/-- The rational number that a numeral stands for. -/
def Numeral.value (numeral : Numeral) : ℚ :=
  signed numeral.negative numeral.significand * 10 ^ numeral.exponent

/--
The rational number that a text stands for, zero if the text is no numeral.
-/
def textValue (text : List Char) : ℚ :=
  ((Numeral.read? text).map Numeral.value).getD 0

theorem digitsValue_append_zero (digits : List Char) :
    digitsValue (digits ++ ['0']) = 10 * digitsValue digits := by
  simp [digitsValue]

/-- A zero behind the digits and one less in the exponent is the same value. -/
theorem Numeral.value_shift
    (negative : Bool)
    (significand : Nat)
    (exponent : Int) :
    Numeral.value ⟨negative, 10 * significand, exponent - 1⟩ =
      Numeral.value ⟨negative, significand, exponent⟩ := by
  have ten : (10 : ℚ) ≠ 0 := by
    norm_num
  have shifted : (10 : ℚ) * 10 ^ (exponent - 1) = 10 ^ exponent := by
    rw [zpow_sub_one₀ ten, mul_comm, mul_assoc, inv_mul_cancel₀ ten, mul_one]
  have product :
      ((10 * significand : Nat) : ℚ) * 10 ^ (exponent - 1) =
        significand * 10 ^ exponent := by
    rw [Nat.cast_mul, Nat.cast_ofNat, mul_right_comm, shifted, mul_comm]
  cases negative with
  | false =>
      exact product
  | true =>
      simp only [Numeral.value, signed, ↓reduceIte, Int.cast_neg,
        Int.cast_natCast, neg_mul, neg_inj]
      exact product

end Decimal

namespace Compile

open Decimal

/--
Characters that neither end the mantissa nor are its point stay where they are.
-/
theorem withFraction_cons
    {character : Char}
    {rest : List Char}
    (notMark : character ≠ 'e' ∧ character ≠ 'E')
    (notPoint : character ≠ '.') :
    withFraction (character :: rest) = character :: withFraction rest := by
  have inMantissa : (!(character == 'e' || character == 'E')) = true := by
    simp [notMark.1, notMark.2]
  simp only [withFraction, List.takeWhile_cons, List.dropWhile_cons, inMantissa,
    ↓reduceIte, List.contains_cons, beq_eq_false_iff_ne.mpr (Ne.symm notPoint),
    Bool.false_or, List.cons_append]
  split <;> rfl

theorem withFraction_digit
    {character : Char}
    {rest : List Char}
    (digit : character.isDigit = true) :
    withFraction (character :: rest) = character :: withFraction rest := by
  refine withFraction_cons ⟨?_, ?_⟩ ?_ <;>
    · rintro rfl
      revert digit
      decide

theorem withFraction_point (rest : List Char) :
    withFraction ('.' :: rest) = '.' :: rest := by
  simp [withFraction]

theorem withFraction_mark
    {character : Char}
    (isMark : character = 'e' ∨ character = 'E')
    (rest : List Char) :
    withFraction (character :: rest) = '.' :: '0' :: character :: rest := by
  rcases isMark with rfl | rfl <;> simp [withFraction]

/-- What starts with no digit still does so with a fraction. -/
theorem withFraction_head
    {character : Char}
    (notDigit : character.isDigit = false)
    (rest : List Char) :
    ∃ head tail,
      withFraction (character :: rest) = head :: tail ∧
        head.isDigit = false := by
  by_cases isMark : character = 'e' ∨ character = 'E'
  · exact ⟨'.', _, withFraction_mark isMark rest, by decide⟩
  · by_cases isPoint : character = '.'
    · subst isPoint
      exact ⟨'.', rest, withFraction_point rest, by decide⟩
    · exact ⟨character, _, withFraction_cons (not_or.mp isMark) isPoint,
        notDigit⟩

/-- The whole digits stay, and what is behind them is changed on its own. -/
theorem withFraction_digits (text : List Char) :
    (withFraction text).takeWhile Char.isDigit = text.takeWhile Char.isDigit ∧
      (withFraction text).dropWhile Char.isDigit =
        withFraction (text.dropWhile Char.isDigit) := by
  induction text with
  | nil =>
      decide
  | cons character rest inductionHypothesis =>
      by_cases digit : character.isDigit = true
      · rw [withFraction_digit digit]
        simp only [List.takeWhile_cons, List.dropWhile_cons, digit, ↓reduceIte,
          inductionHypothesis.1, inductionHypothesis.2, and_self]
      · have notDigit : character.isDigit = false :=
          Bool.eq_false_iff.mpr digit
        obtain ⟨head, tail, shape, headNotDigit⟩ :=
          withFraction_head notDigit rest
        simp [shape, headNotDigit, notDigit]

/-- A sign in front stays as it is. -/
theorem takeSign_withFraction (text : List Char) :
    takeSign (withFraction text) =
      ((takeSign text).1, withFraction (takeSign text).2) := by
  cases text with
  | nil =>
      rfl
  | cons character rest =>
      by_cases isMinus : character = '-'
      · subst isMinus
        rw [withFraction_cons (by decide) (by decide)]
        rfl
      · by_cases isPlus : character = '+'
        · subst isPlus
          rw [withFraction_cons (by decide) (by decide)]
          rfl
        · have unsigned :
              ∀ tail,
                takeSign (character :: tail) = (false, character :: tail) := by
            intro tail
            unfold takeSign
            split <;> simp_all
          by_cases isMark : character = 'e' ∨ character = 'E'
          · rw [withFraction_mark isMark, unsigned, withFraction_mark isMark]
            rfl
          · by_cases isPoint : character = '.'
            · subst isPoint
              rw [withFraction_point, unsigned, withFraction_point]
            · rw [withFraction_cons (not_or.mp isMark) isPoint, unsigned,
                unsigned, withFraction_cons (not_or.mp isMark) isPoint]

theorem takeFraction_of_ne
    {character : Char}
    (notPoint : character ≠ '.')
    (rest : List Char) :
    takeFraction (character :: rest) = ([], character :: rest) := by
  unfold takeFraction
  split <;> simp_all

theorem readExponent?_of_not
    {character : Char}
    (notMark : ¬ (character = 'e' ∨ character = 'E'))
    (rest : List Char) :
    readExponent? (character :: rest) = none := by
  simp [readExponent?, notMark]

/--
What follows the whole digits of a text, with a fraction: it is split as before,
or it had no fraction and now has a single zero, or it is no end of a numeral.
-/
theorem takeFraction_withFraction (text : List Char) :
    takeFraction (withFraction text) = takeFraction text ∨
      (takeFraction text).1 = [] ∧
        takeFraction (withFraction text) = (['0'], (takeFraction text).2) ∨
      readExponent? (takeFraction text).2 = none ∧
        readExponent? (takeFraction (withFraction text)).2 = none := by
  cases text with
  | nil =>
      exact .inr (.inl ⟨rfl, by decide⟩)
  | cons character rest =>
      by_cases isPoint : character = '.'
      · subst isPoint
        rw [withFraction_point]
        exact .inl rfl
      · by_cases isMark : character = 'e' ∨ character = 'E'
        · have notDigit : character.isDigit = false := by
            rcases isMark with rfl | rfl <;> decide
          have zero : ('0' : Char).isDigit = true := by
            decide
          refine .inr (.inl ?_)
          rw [withFraction_mark isMark, takeFraction_of_ne isPoint]
          simp [takeFraction, zero, notDigit]
        · refine .inr (.inr ?_)
          rw [withFraction_cons (not_or.mp isMark) isPoint,
            takeFraction_of_ne isPoint, takeFraction_of_ne isPoint]
          exact ⟨readExponent?_of_not isMark _, readExponent?_of_not isMark _⟩

/-- A fraction of zero does not change the value of a text. -/
theorem textValue_withFraction (text : List Char) :
    textValue (withFraction text) = textValue text := by
  simp only [textValue, Numeral.read?]
  rw [takeSign_withFraction]
  dsimp only
  rw [(withFraction_digits _).1, (withFraction_digits _).2]
  generalize (takeSign text).1 = negative
  generalize (takeSign text).2.takeWhile Char.isDigit = whole
  generalize (takeSign text).2.dropWhile Char.isDigit = behind
  rcases takeFraction_withFraction behind with
    same | ⟨noFraction, added⟩ | ⟨before, after⟩
  · rw [same]
  · rw [added, noFraction]
    cases readExponent? (takeFraction behind).2 with
    | none =>
        simp
    | some exponent =>
        cases whole with
        | nil =>
            simp [digitsValue, Numeral.value, signed]
        | cons digit rest =>
            have digits := digitsValue_append_zero (digit :: rest)
            have shifted :=
              Numeral.value_shift negative (digitsValue (digit :: rest))
                exponent
            rw [List.cons_append] at digits
            simp [digits, shifted]
  · rw [before, after]
    simp

/-- In either form the initial value of a literal is the value of its lexeme. -/
theorem textValue_literalInitial
    (form : LiteralForm)
    (lexeme : String) :
    textValue (literalInitial form lexeme).toList =
      textValue (Text.trimChars lexeme.toList) := by
  cases form with
  | real =>
      rw [literalInitial, String.toList_ofList, textValue_withFraction]
  | verbatim =>
      rw [literalInitial, Text.trim, String.toList_ofList]

end Compile

end Coprocessor
