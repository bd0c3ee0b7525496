import Coprocessor.Proofs.Decimal.Value

namespace Coprocessor.Decimal

/-!
# Spellings of numerals

The grammar of numerals, told apart from the reader: perhaps a sign, then
digits with perhaps a point among or beside them, at least one digit in all,
and perhaps an exponent. A spelling has a text and an exact value. A text is
read as a numeral exactly if it is the text of some spelling, and then the
numeral has its value.
-/

/-- What may stand before digits. -/
inductive NumeralSign where
  | absent
  | plus
  | minus
  deriving Repr, DecidableEq

namespace NumeralSign

/-- How a sign is written. -/
def text : NumeralSign → List Char
  | .absent => []
  | .plus => ['+']
  | .minus => ['-']

/-- The number by which a sign multiplies what follows it. -/
def factor : NumeralSign → Int
  | .absent | .plus => 1
  | .minus => -1

/-- Whether a sign is a minus. -/
def isMinus : NumeralSign → Bool
  | .absent | .plus => false
  | .minus => true

end NumeralSign

/-- A run of decimal digits, which may be empty. -/
structure DigitRun where
  characters : List Char
  decimal : ∀ character ∈ characters, character.isDigit = true

/-- The number that a run of digits writes in base ten. -/
def DigitRun.value (digits : DigitRun) : Nat :=
  Nat.ofDigits 10
    (digits.characters.reverse.map fun digit => digit.toNat - '0'.toNat)

/-- The exponent part of a numeral. -/
structure Exponent where
  mark : Char
  isMark : mark = 'e' ∨ mark = 'E'
  sign : NumeralSign
  digits : DigitRun
  nonempty : digits.characters ≠ []

/-- How an exponent part is written, if there is one. -/
def exponentText : Option Exponent → List Char
  | none => []
  | some exponent =>
      exponent.mark :: (exponent.sign.text ++ exponent.digits.characters)

/-- The power of ten that an exponent part gives; without one it is zero. -/
def exponentValue : Option Exponent → Int
  | none => 0
  | some exponent => exponent.sign.factor * exponent.digits.value

/-- How a point and the digits behind it are written, if there is a point. -/
def fractionText : Option DigitRun → List Char
  | none => []
  | some digits => '.' :: digits.characters

/-- The digits behind the point. -/
def fractionDigits : Option DigitRun → DigitRun
  | none => ⟨[], by simp⟩
  | some digits => digits

/-- A way to write a numeral. -/
structure Spelling where
  sign : NumeralSign
  whole : DigitRun
  /-- The digits behind the point, if there is a point. -/
  fraction : Option DigitRun
  exponent : Option Exponent
  significant : whole.characters ≠ [] ∨
    (fractionDigits fraction).characters ≠ []

namespace Spelling

/-- The text of a spelling behind its sign. -/
def unsignedText (spelling : Spelling) : List Char :=
  spelling.whole.characters ++
    (fractionText spelling.fraction ++ exponentText spelling.exponent)

/-- The text of a spelling. -/
def text (spelling : Spelling) : List Char :=
  spelling.sign.text ++ spelling.unsignedText

/-- The exact value of a spelling. -/
def value (spelling : Spelling) : ℚ :=
  let fraction := fractionDigits spelling.fraction
  spelling.sign.factor *
    (spelling.whole.value + fraction.value / 10 ^ fraction.characters.length) *
      10 ^ exponentValue spelling.exponent

/-- The numeral that a spelling is read as. -/
def numeral (spelling : Spelling) : Numeral :=
  let fraction := fractionDigits spelling.fraction
  { negative := spelling.sign.isMinus
    significand :=
      digitsValue (spelling.whole.characters ++ fraction.characters)
    exponent := exponentValue spelling.exponent - fraction.characters.length }

end Spelling

/-- A text that spells a number. -/
def Denotes
    (text : List Char)
    (value : ℚ) :
    Prop :=
  ∃ spelling : Spelling, spelling.text = text ∧ spelling.value = value

/-! ## Values -/

theorem DigitRun.value_eq (digits : DigitRun) :
    digits.value = digitsValue digits.characters := by
  rw [value, digitsValue, Nat.ofDigits_eq_foldr, List.map_reverse,
    List.foldr_reverse, List.foldl_map]
  simp only [Nat.cast_id, Nat.add_comm]

theorem digitsValue_append (first second : List Char) :
    digitsValue (first ++ second) =
      digitsValue first * 10 ^ second.length + digitsValue second := by
  induction second using List.reverseRecOn with
  | nil =>
      simp [digitsValue]
  | append_singleton second digit inductionHypothesis =>
      have last : ∀ front : List Char,
          digitsValue (front ++ [digit]) =
            10 * digitsValue front + (digit.toNat - '0'.toNat) := by
        intro front
        simp [digitsValue]
      rw [← List.append_assoc, last, last, inductionHypothesis,
        List.length_append, pow_add]
      simp
      ring

theorem signed_isMinus
    (sign : NumeralSign)
    (magnitude : Nat) :
    signed sign.isMinus magnitude = sign.factor * magnitude := by
  cases sign <;> simp [signed, NumeralSign.isMinus, NumeralSign.factor]

/-- The numeral of a spelling has its value. -/
theorem Spelling.value_numeral (spelling : Spelling) :
    spelling.numeral.value = spelling.value := by
  have ten : (10 : ℚ) ≠ 0 := by
    norm_num
  simp only [Numeral.value, numeral, value, signed_isMinus, digitsValue_append,
    ← DigitRun.value_eq]
  generalize fractionDigits spelling.fraction = fraction
  rw [zpow_sub₀ ten, zpow_natCast]
  push_cast
  field_simp

/-! ## Reading a spelling -/

/-- A text that does not start with a sign. -/
def Unsigned (text : List Char) : Prop :=
  ∀ character ∈ text.head?, character ≠ '-' ∧ character ≠ '+'

theorem takeSign_of_unsigned
    {text : List Char}
    (unsigned : Unsigned text) :
    takeSign text = (false, text) := by
  rw [takeSign]
  · rintro rest rfl
    exact (unsigned '-' rfl).1 rfl
  · rintro rest rfl
    exact (unsigned '+' rfl).2 rfl

theorem NumeralSign.takeSign_append
    (sign : NumeralSign)
    {text : List Char}
    (unsigned : Unsigned text) :
    takeSign (sign.text ++ text) = (sign.isMinus, text) := by
  cases sign with
  | absent =>
      exact takeSign_of_unsigned unsigned
  | plus | minus =>
      rfl

theorem ne_of_isDigit
    {character other : Char}
    (digit : character.isDigit = true)
    (different : other.isDigit = false) :
    character ≠ other := by
  rintro rfl
  rw [digit] at different
  cases different

theorem unsigned_of_isDigit
    {text : List Char}
    (digits : ∀ character ∈ text.head?, character.isDigit = true) :
    Unsigned text := by
  intro character first
  exact ⟨ne_of_isDigit (digits character first) (by decide),
    ne_of_isDigit (digits character first) (by decide)⟩

namespace DigitRun

variable
    (digits : DigitRun)
    {rest : List Char}
    (ends : ∀ character ∈ rest.head?, character.isDigit = false)

include ends

theorem takeWhile_append :
    (digits.characters ++ rest).takeWhile Char.isDigit = digits.characters := by
  rw [List.takeWhile_append_of_pos digits.decimal]
  cases rest with
  | nil =>
      simp
  | cons character rest =>
      simp [ends character rfl]

theorem dropWhile_append :
    (digits.characters ++ rest).dropWhile Char.isDigit = rest := by
  rw [List.dropWhile_append_of_pos digits.decimal]
  cases rest with
  | nil =>
      rfl
  | cons character rest =>
      simp [ends character rfl]

end DigitRun

theorem head_exponentText (exponent : Option Exponent) :
    ∀ character ∈ (exponentText exponent).head?,
      character = 'e' ∨ character = 'E' := by
  cases exponent with
  | none =>
      simp [exponentText]
  | some exponent =>
      rintro character ⟨⟩
      exact exponent.isMark

theorem takeFraction_text
    (fraction : Option DigitRun)
    (exponent : Option Exponent) :
    takeFraction (fractionText fraction ++ exponentText exponent) =
      ((fractionDigits fraction).characters, exponentText exponent) := by
  have marked := head_exponentText exponent
  cases fraction with
  | none =>
      rw [fractionText, List.nil_append, takeFraction]
      · rfl
      · rintro rest same
        rw [same] at marked
        rcases marked '.' rfl with wrong | wrong <;> cases wrong
  | some digits =>
      have ends :
          ∀ character ∈ (exponentText exponent).head?,
            character.isDigit = false := by
        intro character first
        rcases marked character first with rfl | rfl <;> decide
      rw [fractionText, List.cons_append, takeFraction,
        digits.takeWhile_append ends, digits.dropWhile_append ends]
      rfl

theorem readExponent?_text (exponent : Option Exponent) :
    readExponent? (exponentText exponent) = some (exponentValue exponent) := by
  cases exponent with
  | none =>
      rfl
  | some exponent =>
      have unsigned : Unsigned exponent.digits.characters :=
        unsigned_of_isDigit fun character first =>
          exponent.digits.decimal character (List.mem_of_mem_head? first)
      have digits : isDigits exponent.digits.characters = true := by
        rw [isDigits, List.isEmpty_eq_false_iff.mpr exponent.nonempty,
          Bool.not_false, Bool.true_and, List.all_eq_true]
        exact exponent.digits.decimal
      rw [exponentText, readExponent?, if_pos exponent.isMark,
        exponent.sign.takeSign_append unsigned]
      dsimp only
      rw [if_pos digits, signed_isMinus, exponentValue, DigitRun.value_eq]

namespace Spelling

/-- Behind the whole digits of a spelling stands no digit. -/
theorem ends_whole (spelling : Spelling) :
    ∀ character ∈
      (fractionText spelling.fraction ++ exponentText spelling.exponent).head?,
      character.isDigit = false := by
  cases spelling.fraction with
  | none =>
      intro character first
      rcases head_exponentText _ character first with rfl | rfl <;> decide
  | some digits =>
      rintro character ⟨⟩
      decide

/-- Behind its sign a spelling starts with a digit or the point. -/
theorem head_unsignedText (spelling : Spelling) :
    ∀ character ∈ spelling.unsignedText.head?,
      character.isDigit = true ∨ character = '.' := by
  rw [unsignedText]
  cases whole : spelling.whole.characters with
  | cons digit rest =>
      rintro _ ⟨⟩
      refine .inl (spelling.whole.decimal digit ?_)
      simp [whole]
  | nil =>
      have significant := spelling.significant
      cases fraction : spelling.fraction with
      | none =>
          simp [whole, fraction, fractionDigits] at significant
      | some digits =>
          rintro character ⟨⟩
          exact .inr rfl

theorem takeSign_text (spelling : Spelling) :
    takeSign spelling.text =
      (spelling.sign.isMinus, spelling.unsignedText) := by
  have unsigned : Unsigned spelling.unsignedText := by
    intro character first
    rcases spelling.head_unsignedText character first with digit | rfl
    · exact ⟨ne_of_isDigit digit (by decide), ne_of_isDigit digit (by decide)⟩
    · decide
  exact spelling.sign.takeSign_append unsigned

/-- A spelling is read as its numeral. -/
theorem read?_text (spelling : Spelling) :
    Numeral.read? spelling.text = some spelling.numeral := by
  have someDigit : (spelling.whole.characters.isEmpty &&
      (fractionDigits spelling.fraction).characters.isEmpty) = false := by
    rw [Bool.and_eq_false_iff, List.isEmpty_eq_false_iff,
      List.isEmpty_eq_false_iff]
    exact spelling.significant
  rw [Numeral.read?, takeSign_text]
  dsimp only
  rw [unsignedText, spelling.whole.takeWhile_append spelling.ends_whole,
    spelling.whole.dropWhile_append spelling.ends_whole, takeFraction_text]
  dsimp only
  rw [someDigit, readExponent?_text]
  rfl

end Spelling

/-! ## Every numeral that is read has a spelling -/

theorem exists_sign (text : List Char) :
    ∃ sign : NumeralSign,
      sign.text ++ (takeSign text).2 = text ∧
        sign.isMinus = (takeSign text).1 := by
  unfold takeSign
  split
  · exact ⟨.minus, rfl, rfl⟩
  · exact ⟨.plus, rfl, rfl⟩
  · exact ⟨.absent, rfl, rfl⟩

/-- The digits at the front of a text. -/
def frontDigits (text : List Char) : DigitRun :=
  ⟨text.takeWhile Char.isDigit, fun _ member => List.mem_takeWhile_imp member⟩

theorem exists_fraction (text : List Char) :
    ∃ fraction,
      fractionText fraction ++ (takeFraction text).2 = text ∧
        (fractionDigits fraction).characters = (takeFraction text).1 := by
  unfold takeFraction
  split
  case h_1 rest =>
      refine ⟨some (frontDigits rest), ?_, rfl⟩
      rw [fractionText, List.cons_append]
      exact congrArg _ List.takeWhile_append_dropWhile
  case h_2 =>
      exact ⟨none, rfl, rfl⟩

theorem exists_exponent
    {text : List Char}
    {value : Int}
    (reads : readExponent? text = some value) :
    ∃ exponent, exponentText exponent = text ∧
      exponentValue exponent = value := by
  cases text with
  | nil =>
      exact ⟨none, rfl, Option.some.inj reads⟩
  | cons mark rest =>
      obtain ⟨sign, signText, isMinus⟩ := exists_sign rest
      simp only [readExponent?] at reads
      split_ifs at reads with isMark isExponent
      simp only [isDigits, Bool.and_eq_true, Bool.not_eq_true',
        List.isEmpty_eq_false_iff, List.all_eq_true] at isExponent
      refine ⟨some ⟨mark, isMark, sign, ⟨_, isExponent.2⟩, isExponent.1⟩, ?_,
        ?_⟩
      · rw [exponentText, signText]
      · rw [← Option.some.inj reads, ← isMinus, signed_isMinus, exponentValue,
          DigitRun.value_eq]

/-- A text that is read as a numeral is a spelling of it. -/
theorem exists_spelling
    {text : List Char}
    {numeral : Numeral}
    (reads : Numeral.read? text = some numeral) :
    ∃ spelling : Spelling,
      spelling.text = text ∧ spelling.numeral = numeral := by
  simp only [Numeral.read?] at reads
  split_ifs at reads with noDigit
  obtain ⟨value, readsExponent, same⟩ := Option.map_eq_some_iff.mp reads
  obtain ⟨sign, signText, isMinus⟩ := exists_sign text
  obtain ⟨fraction, fractionShape, fractionSame⟩ :=
    exists_fraction ((takeSign text).2.dropWhile Char.isDigit)
  obtain ⟨exponent, exponentShape, exponentSame⟩ :=
    exists_exponent readsExponent
  rw [Bool.and_eq_true, not_and_or, List.isEmpty_iff, List.isEmpty_iff,
    ← fractionSame] at noDigit
  refine ⟨⟨sign, frontDigits (takeSign text).2, fraction, exponent, noDigit⟩,
    ?_, ?_⟩
  · rw [Spelling.text, Spelling.unsignedText, exponentShape, fractionShape]
    dsimp only [frontDigits]
    rw [List.takeWhile_append_dropWhile, signText]
  · rw [← same, ← isMinus, ← fractionSame, ← exponentSame]
    rfl

/--
A text is read as a numeral exactly if it is the text of a spelling of it.
-/
theorem read?_eq_some_iff
    {text : List Char}
    {numeral : Numeral} :
    Numeral.read? text = some numeral ↔
      ∃ spelling : Spelling,
        spelling.text = text ∧ spelling.numeral = numeral := by
  constructor
  · exact exists_spelling
  · rintro ⟨spelling, rfl, rfl⟩
    exact spelling.read?_text

/-- A text denotes at most one number. -/
theorem Denotes.unique
    {text : List Char}
    {first second : ℚ}
    (denotesFirst : Denotes text first)
    (denotesSecond : Denotes text second) :
    first = second := by
  obtain ⟨spelling, rfl, rfl⟩ := denotesFirst
  obtain ⟨other, same, rfl⟩ := denotesSecond
  have numerals : some other.numeral = some spelling.numeral := by
    rw [← other.read?_text, same, spelling.read?_text]
  rw [← spelling.value_numeral, ← other.value_numeral, Option.some.inj numerals]

/-! ## Characters -/

/-- The characters of numerals. -/
def isNumeralCharacter (character : Char) : Bool :=
  character.isDigit || ['+', '-', '.', 'e', 'E'].contains character

theorem NumeralSign.mem_text
    {sign : NumeralSign}
    {character : Char}
    (member : character ∈ sign.text) :
    character = '+' ∨ character = '-' := by
  cases sign with
  | absent =>
      cases member
  | plus =>
      exact .inl (List.mem_singleton.mp member)
  | minus =>
      exact .inr (List.mem_singleton.mp member)

theorem DigitRun.not_mem
    (digits : DigitRun)
    {character : Char}
    (notDigit : character.isDigit = false) :
    character ∉ digits.characters := by
  intro member
  exact ne_of_isDigit (digits.decimal character member) notDigit rfl

theorem isNumeralCharacter_of_mem_sign
    {sign : NumeralSign}
    {character : Char}
    (member : character ∈ sign.text) :
    isNumeralCharacter character = true := by
  rcases NumeralSign.mem_text member with rfl | rfl <;> decide

theorem isNumeralCharacter_of_mem_digits
    {digits : DigitRun}
    {character : Char}
    (member : character ∈ digits.characters) :
    isNumeralCharacter character = true := by
  simp [isNumeralCharacter, digits.decimal character member]

theorem Spelling.isNumeralCharacter_of_mem
    {spelling : Spelling}
    {character : Char}
    (member : character ∈ spelling.text) :
    isNumeralCharacter character = true := by
  rw [text, unsignedText, List.mem_append, List.mem_append,
    List.mem_append] at member
  rcases member with inSign | inWhole | inFraction | inExponent
  · exact isNumeralCharacter_of_mem_sign inSign
  · exact isNumeralCharacter_of_mem_digits inWhole
  · cases found : spelling.fraction with
    | none =>
        rw [found] at inFraction
        cases inFraction
    | some digits =>
        rw [found, fractionText, List.mem_cons] at inFraction
        rcases inFraction with rfl | inDigits
        · decide
        · exact isNumeralCharacter_of_mem_digits inDigits
  · cases found : spelling.exponent with
    | none =>
        rw [found] at inExponent
        cases inExponent
    | some exponent =>
        rw [found, exponentText, List.mem_cons, List.mem_append] at inExponent
        rcases inExponent with rfl | inSign | inDigits
        · rcases exponent.isMark with isMark | isMark <;> rw [isMark] <;> decide
        · exact isNumeralCharacter_of_mem_sign inSign
        · exact isNumeralCharacter_of_mem_digits inDigits

/-- A text that reads as a numeral holds nothing but characters of numerals. -/
theorem isNumeralCharacter_of_read?
    {text : List Char}
    {numeral : Numeral}
    {character : Char}
    (reads : Numeral.read? text = some numeral)
    (member : character ∈ text) :
    isNumeralCharacter character = true := by
  obtain ⟨spelling, rfl, -⟩ := exists_spelling reads
  exact Spelling.isNumeralCharacter_of_mem member

end Coprocessor.Decimal
