import Coprocessor.Proofs.Assembly.Names

namespace Coprocessor

/-!
# Line feeds in a listing

The text of a listing puts a line feed behind every line. It can be taken apart
into these lines again if none of them holds a line feed of its own. Labels,
mnemonics and the names of generated cells hold none, so that an instruction can
only get one from the name of a variable, and a declaration only from the name
of a symbol or from an initial value.
-/

namespace Text

/--
The lines of a text: each is ended by a line feed, and what follows the last
line feed is a line unless it is empty.
-/
def lines : List Char → List (List Char)
  | [] => []
  | character :: rest =>
      if character = '\n' then
        [] :: lines rest
      else
        match lines rest with
        | [] => [[character]]
        | first :: others => (character :: first) :: others

/-- A line without a line feed is the first line of the text that it starts. -/
theorem lines_append
    {line : List Char}
    (whole : '\n' ∉ line)
    (rest : List Char) :
    lines (line ++ '\n' :: rest) = line :: lines rest := by
  induction line with
  | nil =>
      simp [lines]
  | cons character others inductionHypothesis =>
      obtain ⟨different, othersWhole⟩ := not_or.mp (mt List.mem_cons.mpr whole)
      rw [List.cons_append, lines, if_neg (Ne.symm different),
        inductionHypothesis othersWhole]

/--
In front of a line feed there are as many lines as line feeds, and one more.
-/
theorem length_lines_append
    (line rest : List Char) :
    (lines (line ++ '\n' :: rest)).length =
      line.count '\n' + 1 + (lines rest).length := by
  induction line with
  | nil =>
      simp [lines, Nat.add_comm]
  | cons character others inductionHypothesis =>
      rw [List.cons_append, lines]
      by_cases isFeed : character = '\n'
      · rw [if_pos isFeed, List.length_cons, inductionHypothesis, isFeed,
          List.count_cons_self]
        omega
      · rw [if_neg isFeed, List.count_cons_of_ne isFeed, ← inductionHypothesis]
        cases shape : lines (others ++ '\n' :: rest) with
        | nil =>
            rw [shape, List.length_nil] at inductionHypothesis
            omega
        | cons first rest =>
            rfl

/-- In front of a line feed there is a first line. -/
theorem exists_first_line (text rest : List Char) :
    ∃ first others, lines (text ++ '\n' :: rest) = first :: others := by
  apply List.exists_cons_of_ne_nil
  rw [← List.length_pos_iff, length_lines_append]
  omega

/-- What is behind a line feed starts a new line. -/
theorem lines_append_lines (text rest : List Char) :
    lines (text ++ '\n' :: rest) = lines (text ++ ['\n']) ++ lines rest := by
  induction text with
  | nil =>
      simp [lines]
  | cons character text inductionHypothesis =>
      obtain ⟨first, others, shape⟩ := exists_first_line text []
      rw [List.cons_append, List.cons_append, lines, lines,
        inductionHypothesis, shape]
      split <;> rfl

/-- A text without a line feed goes to the front of the first line behind it. -/
theorem lines_front
    {front text first : List Char}
    {others : List (List Char)}
    (whole : '\n' ∉ front)
    (shape : lines text = first :: others) :
    lines (front ++ text) = (front ++ first) :: others := by
  induction front with
  | nil =>
      exact shape
  | cons character front inductionHypothesis =>
      obtain ⟨different, frontWhole⟩ := not_or.mp (mt List.mem_cons.mpr whole)
      rw [List.cons_append, lines, if_neg (Ne.symm different),
        inductionHypothesis frontWhole]
      rfl

/--
The first line of a text ends at once, or goes on with the first line
of the rest if any.
-/
theorem lines_cons_cases
    {character : Char}
    {rest first : List Char}
    {others : List (List Char)}
    (shape : lines (character :: rest) = first :: others) :
    first = [] ∧ lines rest = others ∨
      first = [character] ∧ others = [] ∨
        ∃ next, first = character :: next ∧ lines rest = next :: others := by
  rw [lines] at shape
  split at shape
  · cases shape
    exact .inl ⟨rfl, rfl⟩
  · cases behind : lines rest with
    | nil =>
        rw [behind] at shape
        cases shape
        exact .inr (.inl ⟨rfl, rfl⟩)
    | cons next more =>
        rw [behind] at shape
        cases shape
        exact .inr (.inr ⟨next, rfl, rfl⟩)

/-- A text starts with its first line. -/
theorem prefix_of_lines
    {text first : List Char}
    {others : List (List Char)}
    (shape : lines text = first :: others) :
    first.IsPrefix text := by
  induction text generalizing first with
  | nil =>
      cases shape
  | cons character rest inductionHypothesis =>
      rcases lines_cons_cases shape with
        ⟨rfl, -⟩ | ⟨rfl, -⟩ | ⟨next, rfl, behind⟩
      · exact List.nil_prefix
      · exact List.prefix_append [character] rest
      · exact List.cons_prefix_cons.mpr ⟨rfl, inductionHypothesis behind⟩

/-- The characters of a line stand together in the text. -/
theorem infix_of_mem_lines
    {line text : List Char}
    (member : line ∈ lines text) :
    line.IsInfix text := by
  induction text with
  | nil =>
      cases member
  | cons character rest inductionHypothesis =>
      obtain ⟨first, others, shape⟩ :=
        List.exists_cons_of_ne_nil (List.ne_nil_of_mem member)
      rw [shape] at member
      rcases List.mem_cons.mp member with rfl | later
      · exact (prefix_of_lines shape).isInfix
      · refine (inductionHypothesis ?_).trans
          (List.suffix_cons character rest).isInfix
        rcases lines_cons_cases shape with
          ⟨-, behind⟩ | ⟨-, rfl⟩ | ⟨next, -, behind⟩
        · rw [behind]
          exact later
        · cases later
        · rw [behind]
          exact List.mem_cons_of_mem next later

/--
Texts that are each ended by a line feed are lines, and one more for each
line feed in them.
-/
theorem length_lines_flatMap (texts : List (List Char)) :
    (lines (texts.flatMap (· ++ ['\n']))).length =
      texts.length + texts.flatten.count '\n' := by
  induction texts with
  | nil =>
      rfl
  | cons text rest inductionHypothesis =>
      rw [List.flatMap_cons, List.append_assoc, List.singleton_append,
        length_lines_append, inductionHypothesis, List.flatten_cons,
        List.count_append, List.length_cons]
      omega

/-- Texts without line feeds that are each ended by one are found again. -/
theorem lines_flatMap
    {texts : List (List Char)}
    (whole : ∀ text ∈ texts, '\n' ∉ text) :
    lines (texts.flatMap (· ++ ['\n'])) = texts := by
  induction texts with
  | nil =>
      rfl
  | cons text rest inductionHypothesis =>
      obtain ⟨textWhole, restWhole⟩ := List.forall_mem_cons.mp whole
      rw [List.flatMap_cons, List.append_assoc, List.singleton_append,
        lines_append textWhole, inductionHypothesis restWhole]

/-- No character of a name is a line feed once its blanks are replaced. -/
theorem feed_not_mem_underscored (text : String) :
    '\n' ∉ (underscored text).toList := by
  have isBlankFeed : isBlank '\n' = true := by
    decide
  intro member
  rw [underscored, String.toList_ofList] at member
  obtain ⟨character, -, replaced⟩ := List.mem_map.mp member
  split_ifs at replaced with blank
  · cases replaced
  · rw [replaced] at blank
    exact blank isBlankFeed

end Text

namespace Assembly

theorem not_isWordCharacter_feed : ¬ isWordCharacter '\n' = true := by
  decide

/-- Whether the name of a cell holds no line feed. -/
def Cell.IsWhole (cell : Cell) : Prop :=
  '\n' ∉ cell.name.toList

/--
Whether the name of the cell that an instruction names holds no line feed.
-/
def Instr.IsWhole (code : Instr) : Prop :=
  ∀ cell, code.cell? = some cell → cell.IsWhole

/-- Whether the text of a declaration holds no line feed. -/
def Declaration.IsWhole (declaration : Declaration) : Prop :=
  '\n' ∉ declaration.render.toList

/-- Whether the text of a line holds no line feed but the one that ends it. -/
def Line.IsWhole (line : Line) : Prop :=
  '\n' ∉ line.render.toList

theorem Cell.IsGenerated.isWhole
    {cell : Cell}
    (generated : cell.IsGenerated) :
    cell.IsWhole := by
  have inNumber : ∀ number : Nat, '\n' ∉ (toString number).toList :=
    fun number member =>
      not_isWordCharacter_feed (isWordCharacter_of_mem_number member)
  cases cell with
  | temporary number | literal number | slot number =>
      rw [IsWhole, name, String.toList_append, List.mem_append, not_or]
      exact ⟨by decide, inNumber number⟩
  | savedControl | floorControl =>
      rw [IsWhole]
      decide
  | «variable» | scratch =>
      exact generated.elim

@[simp] theorem Cell.isWhole_temporary (number : Nat) :
    (Cell.temporary number).IsWhole :=
  Cell.IsGenerated.isWhole trivial

@[simp] theorem Cell.isWhole_literal (number : Nat) :
    (Cell.literal number).IsWhole :=
  Cell.IsGenerated.isWhole trivial

@[simp] theorem Cell.isWhole_slot (number : Nat) : (Cell.slot number).IsWhole :=
  Cell.IsGenerated.isWhole trivial

@[simp] theorem Cell.isWhole_savedControl : Cell.savedControl.IsWhole :=
  Cell.IsGenerated.isWhole trivial

@[simp] theorem Cell.isWhole_floorControl : Cell.floorControl.IsWhole :=
  Cell.IsGenerated.isWhole trivial

@[simp] theorem Cell.isWhole_variable (name : String) :
    (Cell.variable (Symbol.storedName name)).IsWhole :=
  Text.feed_not_mem_underscored name

theorem feed_not_mem_padRight
    {text : String}
    (whole : '\n' ∉ text.toList)
    (width : Nat) :
    '\n' ∉ (Text.padRight width text).toList := by
  simp [Text.padRight, whole]

/-- A declaration is whole if the name of its cell and its directive are. -/
theorem Declaration.isWhole_of_parts
    {declaration : Declaration}
    (nameWhole : declaration.cell.IsWhole)
    (directiveWhole : '\n' ∉ declaration.storage.directive.toList) :
    declaration.IsWhole := by
  have padded := feed_not_mem_padRight nameWhole declaration.column
  rw [IsWhole, render, String.toList_append, String.toList_append,
    List.mem_append, List.mem_append, not_or, not_or]
  exact ⟨⟨padded, by decide⟩, directiveWhole⟩

/-- The operands of an instruction are whole if its cell is. -/
theorem Instr.feed_not_mem_operands
    {code : Instr}
    {operands : String}
    (whole : code.IsWhole)
    (written : code.operands? = some operands) :
    '\n' ∉ operands.toList := by
  have inCell : ∀ cell : Cell, cell.IsWhole → '\n' ∉ cell.operand.toList := by
    intro cell cellWhole
    simpa [Cell.operand, Cell.IsWhole] using cellWhole
  cases code with
  | load cell | loadInteger cell | store cell | storeInteger cell
  | subtractCell cell
  | storeControl cell | loadControl cell =>
      obtain rfl := Option.some.inj written
      exact inCell cell (whole cell rfl)
  | loadAccumulator cell | storeAccumulator cell =>
      obtain rfl := Option.some.inj written
      simp [inCell cell (whole cell rfl)]
  | maskAccumulator mask | raiseAccumulator mask =>
      obtain rfl := Option.some.inj written
      have inWord : '\n' ∉ (hexWord mask).toList := fun member =>
        not_isWordCharacter_feed (isWordCharacter_of_mem_hexWord member)
      simp [inWord]
  | jump condition target =>
      obtain rfl := Option.some.inj written
      exact fun member =>
        not_isWordCharacter_feed (Label.isWordCharacter_of_mem_name member)
  | discard | combine | storeStatus =>
      obtain rfl := Option.some.inj written
      decide
  | loadZero | loadOne | test | setFlags =>
      cases written

namespace Line

/-- The line of an instruction is whole if the cell that it names is. -/
@[simp] theorem isWhole_instr
    (code : Instr)
    (column : Nat) :
    (Line.instr code column).IsWhole ↔ code.IsWhole := by
  constructor
  · intro whole cell names
    cases code <;>
      simp_all [IsWhole, render, Instr.cell?, Instr.operands?, Cell.operand,
        Cell.IsWhole]
  · intro whole
    have inMnemonic : '\n' ∉ code.mnemonic.toList := fun member =>
      not_isWordCharacter_feed (Instr.isWordCharacter_of_mem_mnemonic member)
    have padded := feed_not_mem_padRight inMnemonic column
    cases written : code.operands? with
    | none =>
        simp [IsWhole, render, written, padded]
    | some operands =>
        have inOperands := Instr.feed_not_mem_operands whole written
        simp [IsWhole, render, written, padded, inOperands]

@[simp] theorem isWhole_blank : Line.blank.IsWhole :=
  List.not_mem_nil

@[simp] theorem isWhole_comment (text : String) :
    (Line.comment text).IsWhole ↔ '\n' ∉ text.toList := by
  simp [IsWhole, render]

@[simp] theorem isWhole_remark (text : String) :
    (Line.remark text).IsWhole ↔ '\n' ∉ text.toList := by
  simp [IsWhole, render]

@[simp] theorem isWhole_directive (text : String) :
    (Line.directive text).IsWhole ↔ '\n' ∉ text.toList :=
  Iff.rfl

@[simp] theorem isWhole_label (label : Label) : (Line.label label).IsWhole := by
  have inName : '\n' ∉ label.name.toList := fun member =>
    not_isWordCharacter_feed (Label.isWordCharacter_of_mem_name member)
  simp [IsWhole, render, inName]

end Line

/--
The texts of lines one after the other, without the line feeds that end them.
-/
def written (lines : List Line) : List Char :=
  lines.flatMap fun line => line.render.toList

@[simp] theorem written_append (first second : List Line) :
    written (first ++ second) = written first ++ written second :=
  List.flatMap_append

/-- Whole lines hold no line feed. -/
theorem count_written_of_isWhole
    {lines : List Line}
    (whole : ∀ line ∈ lines, line.IsWhole) :
    (written lines).count '\n' = 0 := by
  rw [List.count_eq_zero, written, List.mem_flatMap]
  rintro ⟨line, member, inLine⟩
  exact whole line member inLine

namespace Listing

theorem toList_render (listing : Listing) :
    listing.render.toList =
      (listing.lines.map fun line => line.render.toList).flatMap
        (· ++ ['\n']) := by
  rw [render, String.toList_join, List.flatMap_map, List.flatMap_map]
  simp [String.toList_append]

/--
The text has a line for every line of the listing and one more for each
line feed in them.
-/
theorem length_lines_render (listing : Listing) :
    (Text.lines listing.render.toList).length =
      listing.lines.length + (written listing.lines).count '\n' := by
  rw [toList_render, Text.length_lines_flatMap, List.length_map]
  rfl

/-- Whole lines are found again in the text. -/
theorem lines_render_of_isWhole
    {listing : Listing}
    (whole : ∀ line ∈ listing.lines, line.IsWhole) :
    Text.lines listing.render.toList =
      listing.lines.map fun line => line.render.toList := by
  rw [toList_render]
  exact Text.lines_flatMap (List.forall_mem_map.mpr whole)

end Listing

end Assembly

end Coprocessor
