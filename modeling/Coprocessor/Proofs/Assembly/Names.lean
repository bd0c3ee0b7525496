import Coprocessor.Compile.Listing
import Mathlib

namespace Coprocessor.Assembly

/-!
# Written names

A listing refers to labels and cells by their written names alone. The name of
a label is a word followed by a number, and the words hold no digits, so a name
determines its label. The names of generated cells start with a sign that the
name of no proper variable starts with, and they determine their cells in the
same way.
-/

/-- Whether a name starts with the sign of generated cells. -/
def isReserved (name : String) : Bool :=
  name.toList.head? == some '@'

/--
The sign of generated cells is no blank, so that a stored name has it
where the name has.
-/
theorem isReserved_storedName (name : String) :
    isReserved (Symbol.storedName name) = isReserved name := by
  have signNotBlank : Text.isBlank '@' = false := by
    decide
  rw [isReserved, isReserved, Symbol.storedName, Text.underscored,
    String.toList_ofList, List.head?_map]
  cases name.toList.head? with
  | none =>
      rfl
  | some character =>
      by_cases blank : Text.isBlank character = true
      · have different : character ≠ '@' := by
          rintro rfl
          rw [signNotBlank] at blank
          cases blank
        simp [blank, different]
      · simp [blank]

/-- Whether a word holds no decimal digit. -/
def isWordy (word : String) : Bool :=
  word.toList.all fun character => !character.isDigit

/-- The part of a numbered name in front of its first digit is its word. -/
theorem takeWhile_numbered
    {word : String}
    (wordy : isWordy word = true)
    (number : Nat) :
    (word ++ toString number).toList.takeWhile
      (fun character => !character.isDigit) =
      word.toList := by
  have digitsOnly :
      (Nat.toDigits 10 number).takeWhile (fun character => !character.isDigit) =
        [] := by
    rw [List.takeWhile_eq_nil_iff]
    intro nonempty
    have digit :=
      Nat.isDigit_of_mem_toDigits (by decide) (by decide)
        (List.getElem_mem nonempty)
    simp [digit]
  have inWord :
      ∀ character ∈ word.toList, (!character.isDigit) = true :=
    List.all_eq_true.mp wordy
  rw [String.toList_append, Nat.toString_eq_repr, Nat.toList_repr,
    List.takeWhile_append_of_pos inWord, digitsOnly, List.append_nil]

/-- A numbered name determines its word and its number. -/
theorem numbered_inj
    {firstWord secondWord : String}
    {first second : Nat}
    (firstWordy : isWordy firstWord = true)
    (secondWordy : isWordy secondWord = true)
    (same : firstWord ++ toString first = secondWord ++ toString second) :
    firstWord = secondWord ∧ first = second := by
  have sameWord : firstWord = secondWord := by
    apply String.toList_inj.mp
    rw [← takeWhile_numbered firstWordy first, same,
      takeWhile_numbered secondWordy second]
  subst secondWord
  exact ⟨rfl, Nat.repr_inj.mp ((String.append_right_inj firstWord).mp same)⟩

/--
Letters, digits and the underscore: mnemonics, labels and numbers
hold nothing else.
-/
def isWordCharacter (character : Char) : Bool :=
  character.isAlphanum || character == '_'

theorem isWordCharacter_of_mem_number
    {number : Nat}
    {character : Char}
    (member : character ∈ (toString number).toList) :
    isWordCharacter character = true := by
  rw [Nat.toString_eq_repr, Nat.toList_repr] at member
  have isDigit := Nat.isDigit_of_mem_toDigits (by decide) (by decide) member
  simp [isWordCharacter, Char.isAlphanum, isDigit]

theorem isWordCharacter_of_mem_hexWord
    {value : BitVec 16}
    {character : Char}
    (member : character ∈ (hexWord value).toList) :
    isWordCharacter character = true := by
  have ofDigit : ∀ digit < 16, isWordCharacter (hexDigit digit) = true := by
    decide
  have first := ofDigit (value.toNat / 4096) (Nat.div_lt_of_lt_mul value.isLt)
  have others :=
    fun number => ofDigit (number % 16) (Nat.mod_lt number (by decide))
  have all : (hexWord value).toList.all isWordCharacter = true := by
    have zero : isWordCharacter '0' = true := by
      decide
    have mark : isWordCharacter 'h' = true := by
      decide
    simp only [hexWord, String.toList_ofList]
    split <;> simp [first, others, zero, mark]
  exact List.all_eq_true.mp all character member

theorem Instr.isWordCharacter_of_mem_mnemonic
    {code : Instr}
    {character : Char}
    (member : character ∈ code.mnemonic.toList) :
    isWordCharacter character = true := by
  have all : code.mnemonic.toList.all isWordCharacter = true := by
    cases code with
    | combine operation =>
        cases operation <;> decide
    | jump condition target =>
        simp only [mnemonic, jumpMnemonic]
        split <;> decide
    | _ =>
        simp only [mnemonic]
        decide
  exact List.all_eq_true.mp all character member

namespace Landmark

theorem isWordy_word (landmark : Landmark) : isWordy landmark.word = true := by
  cases landmark <;> decide

/-- The words of the landmarks are different. -/
theorem word_injective
    {first second : Landmark}
    (same : first.word = second.word) :
    first = second := by
  cases first <;> cases second <;> simp_all [word]

end Landmark

theorem Label.isWordCharacter_of_mem_name
    {label : Label}
    {character : Char}
    (member : character ∈ label.name.toList) :
    isWordCharacter character = true := by
  have inWord : label.landmark.word.toList.all isWordCharacter = true := by
    cases label.landmark <;> decide
  rw [name, String.toList_append] at member
  rcases List.mem_append.mp member with isLetter | isDigit
  · exact List.all_eq_true.mp inWord character isLetter
  · exact isWordCharacter_of_mem_number isDigit

/-- A label is determined by its written name. -/
@[simp] theorem Label.name_inj
    {first second : Label} :
    first.name = second.name ↔ first = second := by
  constructor
  · intro same
    obtain ⟨sameWord, sameNumber⟩ :=
      numbered_inj first.landmark.isWordy_word second.landmark.isWordy_word same
    rcases first with ⟨firstLandmark, firstNumber⟩
    rcases second with ⟨secondLandmark, secondNumber⟩
    obtain rfl : firstLandmark = secondLandmark :=
      Landmark.word_injective sameWord
    obtain rfl : firstNumber = secondNumber :=
      sameNumber
    rfl
  · intro same
    rw [same]

namespace Cell

/-- Cells that the compiler makes up for its own use. -/
def IsGenerated : Cell → Prop
  | .temporary _ | .literal _ | .slot _ | .savedControl | .floorControl => True
  | .variable _ | .scratch _ => False

/-- The name of a cell up to its number. -/
def word : Cell → String
  | .variable name => name
  | .temporary _ => "@tmp"
  | .literal _ => "@lit"
  | .slot _ => "@intSlot"
  | .savedControl => "@cwSave"
  | .floorControl => "@cwFloor"
  | .scratch name => "@" ++ name

/-- The name of a generated cell up to its first digit is its word. -/
theorem takeWhile_name
    {cell : Cell}
    (generated : cell.IsGenerated) :
    cell.name.toList.takeWhile (fun character => !character.isDigit) =
      cell.word.toList := by
  cases cell with
  | «variable» name =>
      exact generated.elim
  | temporary number =>
      exact takeWhile_numbered (by decide) number
  | literal number =>
      exact takeWhile_numbered (by decide) number
  | slot number =>
      exact takeWhile_numbered (by decide) number
  | savedControl =>
      decide
  | floorControl =>
      decide
  | scratch name =>
      exact generated.elim

/-- A generated cell is determined by its name. -/
theorem eq_of_generated
    {first second : Cell}
    (firstGenerated : first.IsGenerated)
    (secondGenerated : second.IsGenerated)
    (same : first.name = second.name) :
    first = second := by
  have sameWord : first.word = second.word := by
    apply String.toList_inj.mp
    rw [← takeWhile_name firstGenerated, same, takeWhile_name secondGenerated]
  cases first <;> cases second <;>
    simp_all [IsGenerated, word, name]

/-- The names of generated cells are reserved. -/
theorem isReserved_name
    {cell : Cell}
    (generated : cell.IsGenerated) :
    isReserved cell.name = true := by
  cases cell <;> simp_all [IsGenerated, isReserved, name]

/--
Cells with a name of their own: generated cells and variables
without a reserved name.
-/
def IsProper : Cell → Prop
  | .variable name => isReserved name = false
  | cell => cell.IsGenerated

theorem isProper_temporary (number : Nat) : (Cell.temporary number).IsProper :=
  trivial

theorem isProper_literal (number : Nat) : (Cell.literal number).IsProper :=
  trivial

/-- A proper cell is a variable without a reserved name, or generated. -/
theorem IsProper.variable_or_generated
    {cell : Cell}
    (proper : cell.IsProper) :
    (∃ name, cell = .variable name ∧ isReserved name = false) ∨
      cell.IsGenerated := by
  cases cell with
  | «variable» name =>
      exact Or.inl ⟨name, rfl, proper⟩
  | _ =>
      exact Or.inr proper

/-- A proper cell is determined by its name. -/
theorem eq_of_proper
    {first second : Cell}
    (firstProper : first.IsProper)
    (secondProper : second.IsProper)
    (same : first.name = second.name) :
    first = second := by
  rcases firstProper.variable_or_generated with
    ⟨firstName, rfl, firstFree⟩ | firstGenerated
  · rcases secondProper.variable_or_generated with
      ⟨secondName, rfl, secondFree⟩ | secondGenerated
    · exact congrArg Cell.variable same
    · have reserved : isReserved firstName = true := by
        rw [show firstName = second.name from same]
        exact isReserved_name secondGenerated
      rw [firstFree] at reserved
      cases reserved
  · rcases secondProper.variable_or_generated with
      ⟨secondName, rfl, secondFree⟩ | secondGenerated
    · have reserved : isReserved secondName = true := by
        rw [show secondName = first.name from same.symm]
        exact isReserved_name firstGenerated
      rw [secondFree] at reserved
      cases reserved
    · exact eq_of_generated firstGenerated secondGenerated same

theorem name_ne_of_proper
    {first second : Cell}
    (firstProper : first.IsProper)
    (secondProper : second.IsProper)
    (different : first ≠ second) :
    first.name ≠ second.name :=
  fun same => different (eq_of_proper firstProper secondProper same)

end Cell

end Coprocessor.Assembly
