import Coprocessor.Proofs.SExpr.Scanning

namespace Coprocessor

/-!
# Writing S-expressions

The items of a list stand in a row. Layout may stand around them, and it must
stand between two items only where these would run together, which is behind a
bare word that the next item does not end. A text *reads as* an expression if
assembling puts that expression behind the items that were read before and goes
on with what follows the text. Quoted atoms and plain words read as atoms, and
texts that read as items make up lists that read as lists, whatever the layout.
-/

namespace Text

/-- The letters of ASCII and the underscore. -/
def isLetter (character : Char) : Bool :=
  character.isAlpha || character == '_'

theorem toNat_of_isLetter
    {character : Char}
    (letter : isLetter character = true) :
    65 ≤ character.toNat ∧ character.toNat ≤ 90 ∨ character.toNat = 95 ∨
      97 ≤ character.toNat ∧ character.toNat ≤ 122 := by
  simp only [isLetter, Char.isAlpha, Char.isUpper, Char.isLower,
    Bool.or_eq_true, Bool.and_eq_true, decide_eq_true_eq, beq_iff_eq,
    UInt32.le_iff_toNat_le] at letter
  rcases letter with (upper | lower) | rfl
  · exact .inl upper
  · exact .inr (.inr lower)
  · exact .inr (.inl rfl)

/-- A character that is a letter in lower case is a letter. -/
theorem isLetter_of_toLower
    {character : Char}
    (letter : isLetter character.toLower = true) :
    isLetter character = true := by
  by_cases upper : character.isUpper = true
  · simp [isLetter, Char.isAlpha, upper]
  · rwa [Char.toLower_eq_of_not_isUpper upper] at letter

theorem ne_of_isLetter
    {character other : Char}
    (letter : isLetter character = true)
    (different : isLetter other = false) :
    character ≠ other := by
  rintro rfl
  rw [letter] at different
  cases different

theorem isBlank_of_isLetter
    {character : Char}
    (letter : isLetter character = true) :
    isBlank character = false := by
  have code := toNat_of_isLetter letter
  simp only [isBlank, blankRanges, List.any_cons, List.any_nil, Bool.or_false,
    Bool.or_eq_false_iff, Bool.and_eq_false_imp, decide_eq_true_eq,
    decide_eq_false_iff_not, Nat.not_le]
  omega

theorem isDigit_of_isLetter
    {character : Char}
    (letter : isLetter character = true) :
    character.isDigit = false := by
  have code := toNat_of_isLetter letter
  by_contra digit
  simp only [Char.isDigit, ge_iff_le, Bool.and_eq_true, decide_eq_true_eq,
    Bool.not_eq_false, UInt32.le_iff_toNat_le, Char.toNat_val] at digit
  have upTo : character.toNat ≤ 57 := digit.2
  omega

end Text

namespace Decimal

/-- The words in lower case that are read as doubles without being numerals. -/
def namedDoubles : List String :=
  ["inf", "infinity", "nan"]

variable
    {first : Char}
    (rest : List Char)
    (letter : Text.isLetter first = true)

include letter

theorem takeSign_of_isLetter :
    takeSign (first :: rest) = (false, first :: rest) := by
  rw [takeSign]
  · rintro _ same
    cases same
    cases letter
  · rintro _ same
    cases same
    cases letter

theorem readInteger?_of_isLetter : readInteger? (first :: rest) = none := by
  simp [readInteger?, takeSign_of_isLetter rest letter, isDigits,
    Text.isDigit_of_isLetter letter]

theorem read?_of_isLetter : Numeral.read? (first :: rest) = none := by
  have notDigit := Text.isDigit_of_isLetter letter
  have noFraction : takeFraction (first :: rest) = ([], first :: rest) := by
    rw [takeFraction]
    rintro _ same
    cases same
    cases letter
  simp [Numeral.read?, takeSign_of_isLetter rest letter, notDigit, noFraction]

end Decimal

/-- A word of letters is a text, unless it names a double. -/
theorem Atom.ofWord_of_letters
    {word : List Char}
    (nonempty : word ≠ [])
    (letters : word.all Text.isLetter = true)
    (unnamed : String.ofList (word.map Char.toLower) ∉ Decimal.namedDoubles) :
    ofWord word = .text (String.ofList word) := by
  cases word with
  | nil =>
      exact (nonempty rfl).elim
  | cons first rest =>
      have letter := List.all_eq_true.mp letters first List.mem_cons_self
      simp only [Decimal.namedDoubles, List.mem_cons, List.not_mem_nil,
        or_false, not_or] at unnamed
      have notDouble : Decimal.Binary64.read? (first :: rest) = none := by
        rw [Decimal.Binary64.read?, Decimal.takeSign_of_isLetter rest letter]
        dsimp only
        rw [if_neg (not_or.mpr ⟨unnamed.1, unnamed.2.1⟩), if_neg unnamed.2.2,
          Decimal.read?_of_isLetter rest letter]
        rfl
      rw [ofWord, number?, Decimal.readInteger?_of_isLetter rest letter,
        notDouble]
      rfl

namespace SExpr

/--
The texts of items one after the other, up to the parenthesis that
closes their list.
-/
inductive Row : List (List Char) → List Char → Prop where
  | close : Row [] [')']
  | item
      {text gap line : List Char}
      {rest : List (List Char)}
      (layout : Layout gap)
      (apart : gap = [] → Ends text line)
      (row : Row rest line) :
      Row (text :: rest) (text ++ (gap ++ line))

/-- A row behind the parenthesis that opens its list. -/
inductive Enclosed (texts : List (List Char)) : List Char → Prop where
  | mk
      {front line : List Char}
      (before : Layout front)
      (row : Row texts line) :
      Enclosed texts ('(' :: (front ++ line))

/-- Layout that is not empty keeps any items apart. -/
structure Separator (text : List Char) : Prop where
  layout : Layout text
  nonempty : text ≠ []

theorem Separator.row
    {text gap line : List Char}
    {rest : List (List Char)}
    (separator : Separator gap)
    (row : Row rest line) :
    Row (text :: rest) (text ++ (gap ++ line)) :=
  .item separator.layout (fun empty => (separator.nonempty empty).elim) row

/-- The last item of a row may stand directly before the parenthesis. -/
theorem Row.last (text : List Char) : Row [text] (text ++ [')']) :=
  .item .none (fun _ => .inr (stops_rightParen [])) .close

/-- Any texts can be put in a row and enclosed. -/
theorem exists_enclosed (texts : List (List Char)) :
    ∃ text, Enclosed texts text := by
  have space : Separator [' '] := ⟨.blank rfl .none, List.cons_ne_nil _ _⟩
  have row : ∃ line, Row texts line := by
    induction texts with
    | nil =>
        exact ⟨_, .close⟩
    | cons text rest inductionHypothesis =>
        obtain ⟨line, row⟩ := inductionHypothesis
        exact ⟨_, space.row row⟩
  obtain ⟨line, row⟩ := row
  exact ⟨_, .mk .none row⟩

theorem Row.ne_nil
    {texts : List (List Char)}
    {line : List Char}
    (row : Row texts line) :
    line ≠ [] := by
  induction row with
  | close =>
      exact List.cons_ne_nil _ _
  | item _ _ _ inductionHypothesis =>
      simp [inductionHypothesis]

/--
An item of a row ends where the rest of the row starts, whatever
follows the row.
-/
theorem Row.ends
    {text gap line : List Char}
    {texts : List (List Char)}
    (row : Row texts line)
    (layout : Layout gap)
    (apart : gap = [] → Ends text line)
    (rest : List Char) :
    Ends text (gap ++ (line ++ rest)) := by
  by_cases delimited : Delimited text
  · exact .inl delimited
  · refine .inr (layout.stops fun empty => ?_)
    rw [stops_append_iff row.ne_nil]
    exact (apart empty).resolve_left delimited

/-- A word of letters is one token. -/
theorem plain_of_letters
    {word : List Char}
    (nonempty : word ≠ [])
    (letters : word.all Text.isLetter = true) :
    Plain word where
  nonempty := nonempty
  unquoted := by
    intro quoted
    have letter :=
      List.all_eq_true.mp letters '"' (List.mem_of_mem_head? quoted)
    cases letter
  unbroken := by
    intro character member
    have letter := List.all_eq_true.mp letters character member
    simp [ScanState.endsWord, Text.isBlank_of_isLetter letter,
      Text.ne_of_isLetter letter (show Text.isLetter '(' = false by decide),
      Text.ne_of_isLetter letter (show Text.isLetter ')' = false by decide),
      Text.ne_of_isLetter letter (show Text.isLetter ';' = false by decide)]

/--
A text that reads as an expression: whatever stands before it in the innermost
open list, the expression is put behind that, and reading goes on behind the
text if the text ends there.
-/
def Reads (text : List Char) (expression : SExpr) : Prop :=
  ∀ (items : List SExpr) (outer : List (List SExpr)) (offset : Nat)
    (rest : List Char),
    Ends text rest →
      assemble (items :: outer) (ScanState.between.scan offset (text ++ rest)) =
        assemble ((expression :: items) :: outer)
          (ScanState.between.scan (offset + byteCount text) rest)

theorem Word.reads (word : Word) : Reads word.text (.atom word.atom) := by
  intro items outer offset rest ends
  rw [word.scan_text offset ends]
  rfl

theorem reads_quote (content : String) :
    Reads (Atom.quote content.toList) (.atom (.text content)) := by
  have reads := (Word.quote content).reads
  rwa [Word.text_quote, Word.atom_quote] at reads

/-- A word of letters reads as itself, unless it names a double. -/
theorem reads_letters
    {word : String}
    (nonempty : word.toList ≠ [])
    (letters : word.toList.all Text.isLetter = true)
    (unnamed :
      String.ofList (word.toList.map Char.toLower) ∉ Decimal.namedDoubles) :
    Reads word.toList (.atom (.text word)) := by
  have reads :=
    (Word.bare word.toList (plain_of_letters nonempty letters)).reads
  rwa [Word.atom, Atom.ofWord_of_letters nonempty letters unnamed,
    String.ofList_toList] at reads

/--
The items of a row are read in their order, up to the parenthesis
that closes it.
-/
theorem assemble_row
    {texts : List (List Char)}
    {expressions : List SExpr}
    {line : List Char}
    (row : Row texts line)
    (read : List.Forall₂ Reads texts expressions)
    (items : List SExpr)
    (outer : List (List SExpr))
    (offset : Nat)
    (rest : List Char) :
    ∃ close,
      assemble (items :: outer) (ScanState.between.scan offset (line ++ rest)) =
        assemble ((expressions.reverse ++ items) :: outer)
          (⟨close, .rightParen⟩ ::
            ScanState.between.scan (offset + byteCount line) rest) := by
  induction row generalizing expressions items offset with
  | close =>
      cases read
      exact ⟨offset, rfl⟩
  | @item text gap line others layout apart row inductionHypothesis =>
      cases read with
      | @cons _ expression _ expressions first read =>
          obtain ⟨close, same⟩ :=
            inductionHypothesis read (expression :: items)
              (offset + byteCount text + byteCount gap)
          refine ⟨close, ?_⟩
          rw [List.append_assoc, List.append_assoc,
            first items outer offset _ (row.ends layout apart rest),
            ScanState.scan_layout layout, same, List.reverse_cons,
            List.append_assoc]
          simp only [byteCount_append, Nat.add_assoc]
          rfl

/-- Between parentheses the items of a row are read up to the closing one. -/
theorem assemble_enclosed
    {texts : List (List Char)}
    {expressions : List SExpr}
    {text : List Char}
    (enclosed : Enclosed texts text)
    (read : List.Forall₂ Reads texts expressions)
    (frames : List (List SExpr))
    (offset : Nat)
    (rest : List Char) :
    ∃ close,
      assemble frames (ScanState.between.scan offset (text ++ rest)) =
        assemble (expressions.reverse :: frames)
          (⟨close, .rightParen⟩ ::
            ScanState.between.scan (offset + byteCount text) rest) := by
  obtain @⟨front, line, before, row⟩ := enclosed
  have opens :
      ScanState.between.step offset '(' = ([⟨offset, .leftParen⟩], .between) :=
        rfl
  obtain ⟨close, same⟩ :=
    assemble_row row read [] frames (offset + byteCount ('(' :: front)) rest
  refine ⟨close, ?_⟩
  calc assemble frames
        (ScanState.between.scan offset ('(' :: (front ++ line) ++ rest))
    _ = assemble ([] :: frames)
          (ScanState.between.scan (offset + byteCount ['('])
            (front ++ (line ++ rest))) := by
        rw [List.cons_append, List.append_assoc, ScanState.scan, opens]
        rfl
    _ = assemble ([] :: frames)
          (ScanState.between.scan (offset + byteCount ('(' :: front))
            (line ++ rest)) := by
        rw [ScanState.scan_layout before]
        simp only [byteCount_cons, byteCount_nil, Nat.add_assoc, Nat.zero_add]
    _ = _ := by
        rw [same, List.append_nil]
        simp only [byteCount_cons, byteCount_append, Nat.add_assoc]

/-- A row between parentheses reads as the list of its items. -/
theorem reads_enclosed
    {texts : List (List Char)}
    {expressions : List SExpr}
    {text : List Char}
    (enclosed : Enclosed texts text)
    (read : List.Forall₂ Reads texts expressions) :
    Reads text (.list expressions) := by
  intro items outer offset rest _
  obtain ⟨close, same⟩ :=
    assemble_enclosed enclosed read (items :: outer) offset rest
  rw [same, assemble, List.reverse_reverse]

/--
A text that is a row between parentheses, and layout around it, is
read as one list.
-/
theorem readChars_enclosed
    {texts : List (List Char)}
    {expressions : List SExpr}
    {front text back : List Char}
    (before : Layout front)
    (enclosed : Enclosed texts text)
    (behind : LastLayout back)
    (read : List.Forall₂ Reads texts expressions) :
    readChars (front ++ (text ++ back)) = .ok (.list expressions) := by
  obtain ⟨close, same⟩ :=
    assemble_enclosed enclosed read [] (0 + byteCount front) back
  rw [readChars, tokens, ScanState.scan_layout before, same,
    ScanState.scan_lastLayout behind, assemble, List.reverse_reverse]
  rfl

end SExpr

end Coprocessor
