import Coprocessor.Proofs.Tree.Literals

namespace Coprocessor

/-!
# Literals as reals

In the real form a literal without a point is given one, with a zero behind it,
before its exponent. The point is found by a search through the text, and yet
the result is always the literal that its spelling asks for: it has the same
value, exactly one point, and it is a real form already.
-/

namespace Decimal

/-- The run of digits that is a single zero. -/
def zeroRun : DigitRun :=
  ⟨['0'], fun _ member => List.mem_singleton.mp member ▸ rfl⟩

namespace Spelling

/-- A spelling with a point: without one, a zero is put behind it. -/
def withPoint (spelling : Spelling) : Spelling where
  sign := spelling.sign
  whole := spelling.whole
  fraction := some (spelling.fraction.getD zeroRun)
  exponent := spelling.exponent
  significant := by
    have significant := spelling.significant
    cases found : spelling.fraction with
    | none =>
        exact .inr (List.cons_ne_nil _ _)
    | some digits =>
        rwa [found] at significant

theorem withPoint_of_fraction
    {spelling : Spelling}
    (hasPoint : spelling.fraction ≠ none) :
    spelling.withPoint = spelling := by
  obtain ⟨sign, whole, fraction, exponent, significant⟩ := spelling
  cases fraction with
  | none =>
      exact (hasPoint rfl).elim
  | some digits =>
      rfl

theorem withPoint_withPoint (spelling : Spelling) :
    spelling.withPoint.withPoint = spelling.withPoint :=
  withPoint_of_fraction (Option.some_ne_none _)

/-- A zero behind the point adds nothing. -/
theorem value_withPoint (spelling : Spelling) :
    spelling.withPoint.value = spelling.value := by
  cases found : spelling.fraction with
  | none =>
      simp [value, withPoint, found, fractionDigits, zeroRun, DigitRun.value]
  | some digits =>
      rw [withPoint_of_fraction]
      simp [found]

variable (spelling : Spelling)

theorem point_not_mem_exponentText : '.' ∉ exponentText spelling.exponent := by
  cases spelling.exponent with
  | none =>
      exact List.not_mem_nil
  | some exponent =>
      rw [exponentText, List.mem_cons, List.mem_append]
      rintro (isMark | inSign | inDigits)
      · rcases exponent.isMark with mark | mark <;>
          · rw [mark] at isMark
            cases isMark
      · rcases NumeralSign.mem_text inSign with wrong | wrong <;> cases wrong
      · exact exponent.digits.not_mem (by decide) inDigits

/-- Before the point stand a sign and digits only. -/
theorem not_mem_front
    {character : Char}
    (other : character ∈ ['.', 'e', 'E']) :
    character ∉ spelling.sign.text ++ spelling.whole.characters := by
  have apart : ['.', 'e', 'E'].all (fun other =>
      other != '+' && other != '-' && !other.isDigit) = true := by
    decide
  have facts := List.all_eq_true.mp apart character other
  simp only [Bool.and_eq_true, bne_iff_ne, Bool.not_eq_true'] at facts
  obtain ⟨⟨notPlus, notMinus⟩, notDigit⟩ := facts
  rw [List.mem_append]
  rintro (inSign | inDigits)
  · rcases NumeralSign.mem_text inSign with isPlus | isMinus
    · exact notPlus isPlus
    · exact notMinus isMinus
  · exact spelling.whole.not_mem notDigit inDigits

/-- The point of a text is that of its spelling. -/
theorem fraction_ne_none
    (member : '.' ∈ spelling.text) :
    spelling.fraction ≠ none := by
  intro noPoint
  rw [text, unsignedText, noPoint, ← List.append_assoc,
    List.mem_append] at member
  rcases member with inFront | inExponent
  · exact spelling.not_mem_front (by decide) inFront
  · exact spelling.point_not_mem_exponentText inExponent

end Spelling

end Decimal

/-- A text with exactly one point, which stands before any exponent. -/
def HasPoint (text : List Char) : Prop :=
  ∃ front back,
    text = front ++ '.' :: back ∧ '.' ∉ front ++ back ∧ 'e' ∉ front ∧
      'E' ∉ front

open Decimal

theorem hasPoint_withPoint (spelling : Spelling) :
    HasPoint spelling.withPoint.text := by
  refine ⟨spelling.sign.text ++ spelling.whole.characters,
    (spelling.fraction.getD zeroRun).characters ++
      exponentText spelling.exponent, ?_, ?_,
    spelling.not_mem_front (by decide), spelling.not_mem_front (by decide)⟩
  · simp [Spelling.text, Spelling.unsignedText, Spelling.withPoint,
      fractionText]
  · intro member
    rcases List.mem_append.mp member with inFront | behind
    · exact spelling.not_mem_front (by decide) inFront
    · rcases List.mem_append.mp behind with inFraction | inExponent
      · exact DigitRun.not_mem _ (by decide) inFraction
      · exact spelling.point_not_mem_exponentText inExponent

namespace Compile

theorem withFraction_sign
    (sign : NumeralSign)
    (rest : List Char) :
    withFraction (sign.text ++ rest) = sign.text ++ withFraction rest := by
  cases sign with
  | absent =>
      rfl
  | plus | minus =>
      exact withFraction_cons (by decide) (by decide)

theorem withFraction_run
    (digits : DigitRun)
    (rest : List Char) :
    withFraction (digits.characters ++ rest) =
      digits.characters ++ withFraction rest := by
  obtain ⟨characters, decimal⟩ := digits
  dsimp only
  induction characters with
  | nil =>
      rfl
  | cons character characters inductionHypothesis =>
      obtain ⟨digit, digits⟩ := List.forall_mem_cons.mp decimal
      rw [List.cons_append, withFraction_digit digit,
        inductionHypothesis digits, List.cons_append]

theorem withFraction_ends
    (fraction : Option DigitRun)
    (exponent : Option Exponent) :
    withFraction (fractionText fraction ++ exponentText exponent) =
      fractionText (some (fraction.getD zeroRun)) ++ exponentText exponent := by
  cases fraction with
  | some digits =>
      exact withFraction_point _
  | none =>
      cases exponent with
      | none =>
          rfl
      | some exponent =>
          exact withFraction_mark exponent.isMark _

/-- The search through the text puts the point where the spelling has it. -/
theorem withFraction_text (spelling : Spelling) :
    withFraction spelling.text = spelling.withPoint.text := by
  rw [Spelling.text, Spelling.unsignedText, withFraction_sign, withFraction_run,
    withFraction_ends]
  rfl

/-- What the real form of a literal is. -/
structure IsRealForm
    (lexeme text : String) :
    Prop where
  isLiteral : isLiteral text = true
  /-- The text stands for the same number as the lexeme. -/
  sameValue : ∀ value,
    Denotes text.toList value ↔ Denotes (Text.trimChars lexeme.toList) value
  noBlank : ∀ character ∈ text.toList, Text.isBlank character = false
  hasPoint : HasPoint text.toList
  /-- A lexeme with a point is only rid of the blanks around it. -/
  kept : '.' ∈ lexeme.toList → text = Text.trim lexeme
  stable : literalInitial .real text = text

theorem denotes_withPoint_iff
    (spelling : Spelling)
    (value : ℚ) :
    Denotes spelling.withPoint.text value ↔ Denotes spelling.text value := by
  have denotes : Denotes spelling.text spelling.value := ⟨spelling, rfl, rfl⟩
  have denotesPoint : Denotes spelling.withPoint.text spelling.value :=
    ⟨spelling.withPoint, rfl, spelling.value_withPoint⟩
  constructor
  · intro other
    exact denotesPoint.unique other ▸ denotes
  · intro other
    exact denotes.unique other ▸ denotesPoint

theorem isRealForm_literalInitial
    {lexeme : String}
    (literal : isLiteral lexeme = true) :
    IsRealForm lexeme (literalInitial .real lexeme) := by
  obtain ⟨_, ⟨spelling, shape, rfl⟩, small⟩ := isLiteral_iff_denotes.mp literal
  have initial :
      (literalInitial .real lexeme).toList = spelling.withPoint.text := by
    rw [literalInitial, String.toList_ofList, ← shape, withFraction_text]
  have noBlank :
      ∀ character ∈ spelling.withPoint.text, Text.isBlank character = false :=
    fun _ member =>
      isBlank_of_isNumeralCharacter (Spelling.isNumeralCharacter_of_mem member)
  have trimmed :
      Text.trimChars spelling.withPoint.text = spelling.withPoint.text :=
    Text.trimChars_of_no_blank noBlank
  constructor
  case isLiteral =>
      rw [isLiteral_iff_denotes, initial, trimmed]
      exact ⟨spelling.value,
        ⟨spelling.withPoint, rfl, spelling.value_withPoint⟩, small⟩
  case sameValue =>
      intro value
      rw [initial, ← shape, denotes_withPoint_iff]
  case noBlank =>
      rwa [initial]
  case hasPoint =>
      rw [initial]
      exact hasPoint_withPoint spelling
  case kept =>
      intro point
      have inText : '.' ∈ spelling.text := by
        rw [shape]
        exact Text.mem_trimChars point (by decide)
      rw [← String.toList_inj, initial,
        Spelling.withPoint_of_fraction (spelling.fraction_ne_none inText),
        shape, Text.trim,
        String.toList_ofList]
  case stable =>
      rw [← String.toList_inj]
      nth_rewrite 1 [literalInitial]
      rw [String.toList_ofList, initial, trimmed, withFraction_text,
        Spelling.withPoint_withPoint]

/--
Literals are the tags that spell a number below the bound, apart from blanks;
these are the ones that read as finite doubles, and in real form each is a
literal with one point and the same value.
-/
theorem literal_real_form (lexeme : String) :
    (isLiteral lexeme = true ↔
        ∃ spelling : Spelling,
          spelling.text = Text.trimChars lexeme.toList ∧
            |spelling.value| < 2 ^ 1024 - 2 ^ 970) ∧
      (isLiteral lexeme = true ↔
        ∃ double,
          Binary64.read? (Text.trimChars lexeme.toList) = some double ∧
            double.isFinite = true) ∧
      (isLiteral lexeme = true →
        IsRealForm lexeme (literalInitial .real lexeme)) := by
  refine ⟨?_, isLiteral_iff_double, isRealForm_literalInitial⟩
  rw [isLiteral_iff_denotes]
  constructor
  · rintro ⟨_, ⟨spelling, shape, rfl⟩, small⟩
    exact ⟨spelling, shape, small⟩
  · rintro ⟨spelling, shape, small⟩
    exact ⟨spelling.value, ⟨spelling, shape, rfl⟩, small⟩

/--
A literal between blanks that are not ASCII, with a sign, leading
zeros and an exponent.
-/
theorem literal_real_form_spaced :
    isLiteral "\u3000-007E+05\u00a0" = true ∧
      literalInitial .real "\u3000-007E+05\u00a0" = "-007.0E+05" ∧
      IsRealForm "\u3000-007E+05\u00a0"
        (literalInitial .real "\u3000-007E+05\u00a0") := by
  have literal : isLiteral "\u3000-007E+05\u00a0" = true := by
    decide +kernel
  exact ⟨literal, by decide +kernel,
    (literal_real_form "\u3000-007E+05\u00a0").2.2 literal⟩

-- The overflow bound lies between these two.
example :
    isLiteral "1.7976931348623158e308" = true ∧
      isLiteral "1.7976931348623159e308" = false := by
  decide +kernel

end Compile

end Coprocessor
