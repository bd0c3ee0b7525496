namespace Coprocessor.Text

/-!
# Blank characters

Blank means the Unicode property `White_Space`: twenty-five code points in ten
ranges, far more than the space, tab and line ends of plain ASCII text. Blanks
separate the items of a program, are ignored around a literal, and are replaced
in the names of variables.
-/

/-- First and last code point of each range of blank characters. -/
def blankRanges : List (Nat × Nat) :=
  [(0x09, 0x0D), (0x20, 0x20), (0x85, 0x85), (0xA0, 0xA0), (0x1680, 0x1680),
    (0x2000, 0x200A), (0x2028, 0x2029), (0x202F, 0x202F), (0x205F, 0x205F),
    (0x3000, 0x3000)]

/-- Whether a character lies in one of the blank ranges. -/
def isBlank (character : Char) : Bool :=
  blankRanges.any fun range =>
    decide (range.1 ≤ character.toNat) && decide (character.toNat ≤ range.2)

/-- Drop the blanks at both ends of a text. -/
def trimChars (characters : List Char) : List Char :=
  ((characters.dropWhile isBlank).reverse.dropWhile isBlank).reverse

/-- A text without the blanks at its two ends. -/
def trim (text : String) : String :=
  String.ofList (trimChars text.toList)

/-- Every blank of a text replaced by an underscore. -/
def underscored (text : String) : String :=
  String.ofList (text.toList.map fun character =>
    if isBlank character then '_' else character)

/-- The characters that replace blanks are not blank themselves. -/
theorem underscored_underscored (text : String) :
    underscored (underscored text) = underscored text := by
  have notBlank : isBlank '_' = false := by
    decide
  simp only [underscored, String.toList_ofList, List.map_map]
  congr 1
  apply List.map_congr_left
  intro character _
  by_cases blank : isBlank character = true <;>
    simp [blank, notBlank]

end Coprocessor.Text
