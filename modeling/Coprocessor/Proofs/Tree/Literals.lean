import Coprocessor.Proofs.Decimal.Overflow
import Coprocessor.Proofs.Decimal.Spelling
import Coprocessor.Proofs.SExpr.Writing
import Coprocessor.Tree.Kind

namespace Coprocessor

/-!
# Literals

A tag is a literal if, apart from the blanks around it, it spells a number below
the overflow bound. These are the tags that read as a finite double: a number
that is spelled with digits never has the name of an infinity or of no number,
and the numbers from the bound on are rounded to an infinity.
-/

namespace Text

theorem dropWhile_of_no_blank
    {text : List Char}
    (noBlank : ∀ character ∈ text, isBlank character = false) :
    text.dropWhile isBlank = text := by
  cases text with
  | nil =>
      rfl
  | cons character rest =>
      rw [List.dropWhile_cons_of_neg]
      simp [noBlank character List.mem_cons_self]

/-- A text without blanks is left as it is. -/
theorem trimChars_of_no_blank
    {text : List Char}
    (noBlank : ∀ character ∈ text, isBlank character = false) :
    trimChars text = text := by
  rw [trimChars, dropWhile_of_no_blank noBlank, dropWhile_of_no_blank,
    List.reverse_reverse]
  intro character member
  exact noBlank character (List.mem_reverse.mp member)

theorem mem_dropWhile_isBlank
    {text : List Char}
    {character : Char}
    (member : character ∈ text)
    (notBlank : isBlank character = false) :
    character ∈ text.dropWhile isBlank := by
  rw [← text.takeWhile_append_dropWhile (p := isBlank),
    List.mem_append] at member
  rcases member with dropped | kept
  · rw [List.mem_takeWhile_imp dropped] at notBlank
    cases notBlank
  · exact kept

/-- Only blanks are dropped. -/
theorem mem_trimChars
    {text : List Char}
    {character : Char}
    (member : character ∈ text)
    (notBlank : isBlank character = false) :
    character ∈ trimChars text := by
  rw [trimChars, List.mem_reverse]
  apply mem_dropWhile_isBlank _ notBlank
  rw [List.mem_reverse]
  exact mem_dropWhile_isBlank member notBlank

end Text

namespace Decimal

open Text

theorem isBlank_of_isNumeralCharacter
    {character : Char}
    (numeral : isNumeralCharacter character = true) :
    isBlank character = false := by
  rw [isNumeralCharacter, Bool.or_eq_true] at numeral
  rcases numeral with digit | isMark
  · simp only [Char.isDigit, ge_iff_le, Bool.and_eq_true, decide_eq_true_eq,
      UInt32.le_iff_toNat_le, Char.toNat_val] at digit
    have lower : 48 ≤ character.toNat := digit.1
    have upper : character.toNat ≤ 57 := digit.2
    simp only [isBlank, blankRanges, List.any_cons, List.any_nil, Bool.or_false,
      Bool.or_eq_false_iff, Bool.and_eq_false_imp, decide_eq_true_eq,
      decide_eq_false_iff_not, Nat.not_le]
    omega
  · have marks :
        ['+', '-', '.', 'e', 'E'].all (fun mark => !isBlank mark) = true := by
      decide
    rw [List.contains_iff_mem] at isMark
    exact Bool.not_eq_true' _ ▸ List.all_eq_true.mp marks character isMark

theorem letters_of_mem_namedDoubles
    {word : String}
    (named : word ∈ namedDoubles) :
    word.toList ≠ [] ∧
      ∀ character ∈ word.toList, isLetter character = true := by
  have all : namedDoubles.all (fun word =>
      !word.toList.isEmpty && word.toList.all isLetter) = true := by
    decide
  have letters := List.all_eq_true.mp all word named
  rwa [Bool.and_eq_true, Bool.not_eq_true', List.isEmpty_eq_false_iff,
    List.all_eq_true] at letters

/--
A numeral is not the name of a double: behind its sign it starts with no letter.
-/
theorem Spelling.lowerWord_ne
    (spelling : Spelling)
    {word : String}
    (named : word ∈ namedDoubles) :
    String.ofList (spelling.unsignedText.map Char.toLower) ≠ word := by
  rintro rfl
  obtain ⟨nonempty, letters⟩ := letters_of_mem_namedDoubles named
  have starts := spelling.head_unsignedText
  rw [String.toList_ofList] at nonempty letters
  cases found : spelling.unsignedText with
  | nil =>
      rw [found] at nonempty
      exact nonempty rfl
  | cons first rest =>
      rw [found] at letters starts
      have letter : isLetter first = true :=
        isLetter_of_toLower (letters _ List.mem_cons_self)
      rcases starts first rfl with digit | rfl
      · rw [isDigit_of_isLetter letter] at digit
        cases digit
      · cases letter

/-- A numeral is read as the double nearest to it. -/
theorem Binary64.read?_text (spelling : Spelling) :
    Binary64.read? spelling.text = some (ofNumeral spelling.numeral) := by
  have notInfinite :
      String.ofList (spelling.unsignedText.map Char.toLower) ≠ "inf" ∧
      String.ofList (spelling.unsignedText.map Char.toLower) ≠ "infinity" :=
    ⟨spelling.lowerWord_ne (by decide), spelling.lowerWord_ne (by decide)⟩
  have isNumber :
      String.ofList (spelling.unsignedText.map Char.toLower) ≠ "nan" :=
    spelling.lowerWord_ne (by decide)
  rw [read?, spelling.takeSign_text]
  dsimp only
  rw [if_neg (not_or.mpr notInfinite), if_neg isNumber, spelling.read?_text]
  rfl

/-- Only numerals are read as finite doubles. -/
theorem Binary64.exists_numeral
    {text : List Char}
    {double : Binary64}
    (reads : read? text = some double)
    (finite : double.isFinite = true) :
    ∃ numeral, Numeral.read? text = some numeral ∧
      ofNumeral numeral = double := by
  rw [read?] at reads
  dsimp only at reads
  split_ifs at reads
  · cases reads
    cases finite
  · cases reads
    cases finite
  · exact Option.map_eq_some_iff.mp reads

/-- A numeral is finite exactly if the double nearest to it is. -/
theorem Binary64.isFinite_ofNumeral_iff (numeral : Numeral) :
    (ofNumeral numeral).isFinite = true ↔ numeral.isFinite = true := by
  constructor
  · intro finite
    by_contra beyond
    rw [ofNumeral_of_not_isFinite (Bool.not_eq_true _ ▸ beyond)] at finite
    cases finite
  · exact isFinite_ofNumeral

end Decimal

open Decimal

section Literal

variable {tag : String}

theorem isLiteral_of_kind
    (kind : Kind.ofTag tag = .literal) :
    isLiteral tag = true := by
  unfold Kind.ofTag at kind
  split at kind <;> simp_all

theorem not_isLiteral_of_kind
    (kind : Kind.ofTag tag = .identifier) :
    isLiteral tag ≠ true := by
  intro literal
  unfold Kind.ofTag at kind
  split at kind <;> simp_all

theorem isLiteral_iff_numeral :
    isLiteral tag = true ↔
      ∃ numeral,
        Numeral.read? (Text.trimChars tag.toList) = some numeral ∧
          numeral.isFinite = true := by
  rw [isLiteral]
  split
  case h_1 numeral reads =>
      simp [reads]
  case h_2 fails =>
      simp [fails]

/-- A literal spells a number below the overflow bound. -/
theorem isLiteral_iff_denotes :
    isLiteral tag = true ↔
      ∃ value, Denotes (Text.trimChars tag.toList) value ∧
        |value| < overflowValue := by
  simp only [isLiteral_iff_numeral, read?_eq_some_iff]
  constructor
  · rintro ⟨_, ⟨spelling, shape, rfl⟩, finite⟩
    rw [Numeral.isFinite_iff, spelling.value_numeral] at finite
    exact ⟨spelling.value, ⟨spelling, shape, rfl⟩, finite⟩
  · rintro ⟨_, ⟨spelling, shape, rfl⟩, small⟩
    refine ⟨spelling.numeral, ⟨spelling, shape, rfl⟩, ?_⟩
    rwa [Numeral.isFinite_iff, spelling.value_numeral]

/-- A word that is read as an integer is a literal. -/
theorem isLiteral_of_readInteger?
    {integer : Int}
    (reads : readInteger? (Text.trimChars tag.toList) = some integer) :
    isLiteral tag = true := by
  obtain ⟨sign, signText, isMinus⟩ := exists_sign (Text.trimChars tag.toList)
  simp only [readInteger?] at reads
  split_ifs at reads with fits
  simp only [isDigits, Bool.and_eq_true, Bool.not_eq_true',
    List.isEmpty_eq_false_iff, List.all_eq_true, decide_eq_true_eq,
    Option.some.inj reads] at fits
  obtain ⟨⟨⟨nonempty, decimal⟩, lower⟩, upper⟩ := fits
  have bound : (2 : ℚ) ^ (64 : Int) ≤ overflowValue :=
    pow_le_overflowValue (by decide +kernel)
  have value :
      Spelling.value ⟨sign, ⟨_, decimal⟩, none, none, .inl nonempty⟩ =
        integer := by
    rw [← Option.some.inj reads, ← isMinus, signed_isMinus]
    simp [Spelling.value, fractionDigits, exponentValue, DigitRun.value_eq,
      digitsValue]
  refine isLiteral_iff_denotes.mpr ⟨integer, ⟨_, ?_, value⟩, ?_⟩
  · simp [Spelling.text, Spelling.unsignedText, fractionText, exponentText,
      signText]
  · rw [integerBound] at lower upper
    have small : |integer| < 2 ^ 64 := by
      rw [abs_lt]
      omega
    refine lt_of_lt_of_le ?_ bound
    exact_mod_cast small

/-- A literal is read as a finite double. -/
theorem isLiteral_iff_double :
    isLiteral tag = true ↔
      ∃ double,
        Binary64.read? (Text.trimChars tag.toList) = some double ∧
          double.isFinite = true := by
  rw [isLiteral_iff_numeral]
  constructor
  · rintro ⟨numeral, reads, finite⟩
    obtain ⟨spelling, shape, rfl⟩ := exists_spelling reads
    exact ⟨_, shape ▸ Binary64.read?_text spelling,
      Binary64.isFinite_ofNumeral finite⟩
  · rintro ⟨double, reads, finite⟩
    obtain ⟨numeral, readsNumeral, rfl⟩ := Binary64.exists_numeral reads finite
    exact ⟨numeral, readsNumeral,
      (Binary64.isFinite_ofNumeral_iff numeral).mp finite⟩

end Literal

end Coprocessor
