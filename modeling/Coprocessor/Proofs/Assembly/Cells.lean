import Coprocessor.Proofs.Assembly.Depth

namespace Coprocessor.Assembly

/-!
# Reading and writing cells

Code is read in the order of its lines, with the cells that have been written
since the last label of a statement. If every temporary and every slot is read
only while it is among them, then every walk to a line that reads one has passed
a line that writes it: a jump to the label of a statement forgets all cells, and
a jump within a comparison leads over no line that writes one.
-/

/-- The cell whose content an instruction takes. -/
def Instr.read? : Instr → Option Cell
  | .load source | .loadInteger source | .subtractCell source
  | .loadControl source
  | .loadAccumulator source => some source
  | _ => none

/-- The cell whose content an instruction replaces. -/
def Instr.written? : Instr → Option Cell
  | .store target | .storeInteger target | .storeControl target
  | .storeAccumulator target => some target
  | _ => none

/--
Instructions that use each family of cells as it is meant to be used: only
temporaries and variables are filled with real numbers, only slots with
integers, and the name of no variable is reserved.
-/
def Instr.IsOrderly : Instr → Prop
  | .load (.variable name) | .store (.variable name) => isReserved name = false
  | .load (.temporary _) | .load (.literal _) | .store (.temporary _)
  | .subtractCell (.temporary _) | .loadInteger (.slot _)
  | .storeInteger (.slot _)
  | .storeControl .savedControl | .loadControl .savedControl
  | .loadControl .floorControl
  | .loadAccumulator .savedControl | .storeAccumulator .floorControl => True
  | .loadZero | .loadOne | .discard | .combine _ | .test | .storeStatus
  | .setFlags
  | .maskAccumulator _ | .raiseAccumulator _ | .jump _ _ => True
  | .load _ | .store _ | .subtractCell _ | .loadInteger _ | .storeInteger _
  | .storeControl _ | .loadControl _ | .loadAccumulator _
  | .storeAccumulator _ => False

@[simp] theorem Instr.isOrderly_jump (condition : Condition) (target : Label) :
    (Instr.jump condition target).IsOrderly :=
  trivial

/-- Cells that hold nothing of use until they are written. -/
def Cell.IsFilled : Cell → Prop
  | .temporary _ | .slot _ => True
  | _ => False

namespace Line

/-- The cell whose content a line takes. -/
def read? (line : Line) : Option Cell :=
  line.instr?.bind Instr.read?

/-- The cell whose content a line replaces. -/
def written? (line : Line) : Option Cell :=
  line.instr?.bind Instr.written?

/-- The cell that a line pops a real number into. -/
def storedReal? : Line → Option Cell
  | .instr (.store target) _ => some target
  | _ => none

/-- The cell that a line pops an integer into. -/
def storedInteger? : Line → Option Cell
  | .instr (.storeInteger target) _ => some target
  | _ => none

/-- The temporary or slot that a line fills with what belongs there. -/
def filled? : Line → Option Cell
  | .instr (.store (.temporary number)) _ => some (.temporary number)
  | .instr (.storeInteger (.slot number)) _ => some (.slot number)
  | _ => none

/-- Every instruction on the line is orderly. -/
def IsOrderly (line : Line) : Prop :=
  ∀ code ∈ line.instr?, code.IsOrderly

@[simp] theorem isOrderly_instr (code : Instr) (column : Nat) :
    (Line.instr code column).IsOrderly ↔ code.IsOrderly := by
  simp [IsOrderly, instr?]

@[simp] theorem isOrderly_blank : Line.blank.IsOrderly := by
  simp [IsOrderly, instr?]

@[simp] theorem isOrderly_comment (text : String) :
    (Line.comment text).IsOrderly := by
  simp [IsOrderly, instr?]

@[simp] theorem isOrderly_remark (text : String) :
    (Line.remark text).IsOrderly := by
  simp [IsOrderly, instr?]

@[simp] theorem isOrderly_label (label : Label) :
    (Line.label label).IsOrderly := by
  simp [IsOrderly, instr?]

/-- Whether a line is the label of a statement. -/
def clears : Line → Bool
  | .label ⟨.comparisonHolds, _⟩ | .label ⟨.endOfComparison, _⟩ => false
  | .label _ => true
  | _ => false

/--
The cells that are known to be written behind a line, if some are
in front of it.
-/
def supply
    (cells : List Cell)
    (line : Line) :
    List Cell :=
  if line.clears then [] else line.written?.toList ++ cells

/-- The line takes no temporary and no slot but from the given cells. -/
def IsSupplied
    (cells : List Cell)
    (line : Line) :
    Prop :=
  ∀ cell ∈ line.read?, cell.IsFilled → cell ∈ cells

/-- The line changes nothing in what is known to be written. -/
def IsNeutral (line : Line) : Prop :=
  line.clears = false ∧ line.written? = none

theorem mem_supply
    {cells : List Cell}
    {line : Line}
    {cell : Cell}
    (member : cell ∈ line.supply cells) :
    line.written? = some cell ∨ line.clears = false ∧ cell ∈ cells := by
  rw [supply] at member
  split at member
  case isTrue =>
      cases member
  case isFalse keeps =>
      rcases List.mem_append.mp member with written | known
      · exact .inl (Option.mem_toList.mp written)
      · exact .inr ⟨Bool.eq_false_iff.mpr keeps, known⟩

/-- A jump writes nothing. -/
theorem isNeutral_of_jump
    {line : Line}
    {condition : Condition}
    {target : Label}
    (isJump : line.control? = some (.jump condition target)) :
    line.IsNeutral := by
  cases line with
  | instr code column =>
      cases code with
      | jump =>
          exact ⟨rfl, rfl⟩
      | _ =>
          cases isJump
  | _ =>
      cases isJump

theorem IsNeutral.supply_eq
    {line : Line}
    (neutral : line.IsNeutral)
    (cells : List Cell) :
    line.supply cells = cells := by
  simp [supply, neutral.1, neutral.2]

theorem IsOrderly.proper_of_read
    {line : Line}
    {cell : Cell}
    (orderly : line.IsOrderly)
    (reads : line.read? = some cell) :
    cell.IsProper := by
  obtain ⟨code, isCode, codeReads⟩ := Option.bind_eq_some_iff.mp reads
  have codeOrderly := orderly code isCode
  cases code with
  | load source | loadInteger source | subtractCell source | loadControl source
  | loadAccumulator source =>
      obtain rfl := Option.some.inj codeReads
      cases source <;>
        first
        | exact codeOrderly
        | exact codeOrderly.elim
  | _ =>
      cases codeReads

end Line

/--
How a cell is filled: a temporary with a real number, and a slot
with an integer.
-/
inductive FilledBy : Cell → (Line → Option Cell) → Prop where
  | real (number : Nat) : FilledBy (.temporary number) Line.storedReal?
  | integer (number : Nat) : FilledBy (.slot number) Line.storedInteger?

/--
An orderly line writes a cell by filling it, or it writes a variable
or a control word.
-/
theorem Line.IsOrderly.written_cases
    {line : Line}
    {cell : Cell}
    (orderly : line.IsOrderly)
    (writes : line.written? = some cell) :
    (∃ stored?, FilledBy cell stored? ∧ stored? line = some cell) ∨
      (∃ name, cell = .variable name ∧ isReserved name = false) ∨
      cell = .savedControl ∨ cell = .floorControl := by
  obtain ⟨code, isCode, codeWrites⟩ := Option.bind_eq_some_iff.mp writes
  have codeOrderly := orderly code isCode
  cases line with
  | instr onLine column =>
      obtain rfl : onLine = code := Option.some.inj isCode
      cases onLine with
      | store target =>
          obtain rfl := Option.some.inj codeWrites
          cases target with
          | temporary number =>
              exact .inl ⟨_, .real number, rfl⟩
          | «variable» name =>
              exact .inr (.inl ⟨name, rfl, codeOrderly⟩)
          | _ =>
              exact codeOrderly.elim
      | storeInteger target =>
          obtain rfl := Option.some.inj codeWrites
          cases target with
          | slot number =>
              exact .inl ⟨_, .integer number, rfl⟩
          | _ =>
              exact codeOrderly.elim
      | storeControl target | storeAccumulator target =>
          obtain rfl := Option.some.inj codeWrites
          cases target with
          | savedControl =>
              exact .inr (.inr (.inl rfl))
          | floorControl =>
              exact .inr (.inr (.inr rfl))
          | _ =>
              exact codeOrderly.elim
      | _ =>
          cases codeWrites
  | _ =>
      cases isCode

namespace FilledBy

variable
    {cell : Cell}
    {stored? : Line → Option Cell}
    {line : Line}
    (fills : FilledBy cell stored?)

include fills

theorem isFilled : cell.IsFilled := by
  cases fills <;> trivial

theorem isGenerated : cell.IsGenerated := by
  cases fills <;> trivial

theorem isProper : cell.IsProper := by
  cases fills <;> trivial

/-- There is one way to fill a cell. -/
theorem unique
    {other? : Line → Option Cell}
    (fillsToo : FilledBy cell other?) :
    stored? = other? := by
  cases fills <;> cases fillsToo <;> rfl

theorem written?_of_stored
    {other : Cell}
    (stores : stored? line = some other) :
    line.written? = some other := by
  cases line with
  | instr code column =>
      cases fills <;> cases code <;>
        first
        | exact stores
        | cases stores
  | _ =>
      cases fills <;> cases stores

/-- A cell is filled where what belongs there is stored in it. -/
theorem filled?_iff : line.filled? = some cell ↔ stored? line = some cell := by
  cases line with
  | instr code column =>
      cases fills <;> cases code with
      | store target | storeInteger target =>
          cases target <;>
            first
            | exact Iff.rfl
            | simp [Line.filled?, Line.storedReal?, Line.storedInteger?]
      | _ =>
          exact Iff.rfl
  | _ =>
      cases fills <;> exact Iff.rfl

/-- Orderly lines write such a cell only by storing what belongs there. -/
theorem written?_iff (orderly : line.IsOrderly) :
    line.written? = some cell ↔ stored? line = some cell := by
  refine ⟨fun writes => ?_, fills.written?_of_stored⟩
  rcases orderly.written_cases writes with
    ⟨_, fillsToo, stores⟩ | ⟨_, rfl, -⟩ | rfl | rfl
  · rwa [fills.unique fillsToo]
  · cases fills
  · cases fills
  · cases fills

end FilledBy

namespace Line

theorem IsOrderly.proper_of_written
    {line : Line}
    {cell : Cell}
    (orderly : line.IsOrderly)
    (writes : line.written? = some cell) :
    cell.IsProper := by
  rcases orderly.written_cases writes with
    ⟨_, fills, -⟩ | ⟨_, rfl, free⟩ | rfl | rfl
  · exact fills.isProper
  · exact free
  · trivial
  · trivial

/-- No orderly line writes a literal. -/
theorem IsOrderly.written?_ne_literal
    {line : Line}
    (orderly : line.IsOrderly)
    (number : Nat) :
    line.written? ≠ some (.literal number) := by
  intro writes
  rcases orderly.written_cases writes with
    ⟨_, fills, -⟩ | ⟨_, other, -⟩ | other | other
  · cases fills
  · cases other
  · cases other
  · cases other

end Line

/--
The cells that are known to be written behind lines passed one after the other.
-/
def supplyAfter
    (cells : List Cell)
    (lines : List Line) :
    List Cell :=
  lines.foldl Line.supply cells

@[simp] theorem supplyAfter_nil (cells : List Cell) :
    supplyAfter cells [] = cells :=
  rfl

@[simp] theorem supplyAfter_cons
    (cells : List Cell)
    (line : Line)
    (rest : List Line) :
    supplyAfter cells (line :: rest) = supplyAfter (line.supply cells) rest :=
  rfl

@[simp] theorem supplyAfter_append
    (cells : List Cell)
    (first second : List Line) :
    supplyAfter cells (first ++ second) =
      supplyAfter (supplyAfter cells first) second :=
  List.foldl_append

/-- Neutral lines change nothing in what is known to be written. -/
theorem supplyAfter_of_neutral
    {lines : List Line}
    (neutral : ∀ line ∈ lines, line.IsNeutral)
    (cells : List Cell) :
    supplyAfter cells lines = cells := by
  induction lines with
  | nil =>
      rfl
  | cons line rest inductionHypothesis =>
      rw [List.forall_mem_cons] at neutral
      rw [supplyAfter_cons, neutral.1.supply_eq, inductionHypothesis neutral.2]

/-- Each line takes what has been written in front of it. -/
def Supplied
    (cells : List Cell) :
    List Line → Prop
  | [] => True
  | line :: rest => line.IsSupplied cells ∧ Supplied (line.supply cells) rest

@[simp] theorem supplied_append
    (cells : List Cell)
    (first second : List Line) :
    Supplied cells (first ++ second) ↔
      Supplied cells first ∧ Supplied (supplyAfter cells first) second := by
  induction first generalizing cells with
  | nil =>
      simp [Supplied]
  | cons line rest inductionHypothesis =>
      simp only [List.cons_append, Supplied, supplyAfter_cons,
        inductionHypothesis, and_assoc]

theorem Supplied.at
    {code : List Line}
    {line : Line}
    {position : Nat}
    (supplied : Supplied [] code)
    (lineAt : code[position]? = some line) :
    line.IsSupplied (supplyAfter [] (code.take position)) := by
  obtain ⟨inside, same⟩ := List.getElem?_eq_some_iff.mp lineAt
  rw [← List.take_append_drop position code, List.drop_eq_getElem_cons inside,
    same, supplied_append] at supplied
  exact supplied.2.1

/--
A jump within a comparison leads over neutral lines only, to the next
label of its name.
-/
def Compact : List Line → Prop
  | [] => True
  | line :: rest =>
      (∀ condition target,
        line.control? = some (.jump condition target) →
          (Line.label target).clears = false →
            ∃ between after,
              rest = between ++ .label target :: after ∧
                ∀ other ∈ between, other.IsNeutral) ∧
        Compact rest

namespace Compact

theorem append
    {first second : List Line}
    (firstCompact : Compact first)
    (secondCompact : Compact second) :
    Compact (first ++ second) := by
  induction first with
  | nil =>
      exact secondCompact
  | cons line rest inductionHypothesis =>
      refine ⟨?_, inductionHypothesis firstCompact.2⟩
      intro condition target isJump inside
      obtain ⟨between, after, rfl, neutral⟩ :=
        firstCompact.1 condition target isJump inside
      exact ⟨between, after ++ second, by simp, neutral⟩

/-- Lines whose jumps all lead to labels of statements are compact. -/
theorem of_clearing
    {lines : List Line}
    (clearing :
      ∀ line ∈ lines, ∀ condition target,
        line.control? = some (.jump condition target) →
          (Line.label target).clears = true) :
    Compact lines := by
  induction lines with
  | nil =>
      trivial
  | cons line rest inductionHypothesis =>
      rw [List.forall_mem_cons] at clearing
      refine ⟨?_, inductionHypothesis clearing.2⟩
      intro condition target isJump inside
      rw [clearing.1 condition target isJump] at inside
      cases inside

theorem drop
    {code : List Line}
    (compact : Compact code)
    (position : Nat) :
    Compact (code.drop position) := by
  induction position generalizing code with
  | zero =>
      exact compact
  | succ position inductionHypothesis =>
      cases code with
      | nil =>
          trivial
      | cons line rest =>
          exact inductionHypothesis compact.2

/--
The cells known to be written do not change between a jump and its
target in a comparison.
-/
theorem supplyAfter_target
    {code : List Line}
    {line : Line}
    {condition : Condition}
    {target : Label}
    {position following : Nat}
    (compact : Compact code)
    (unique : (labels code).Nodup)
    (lineAt : code[position]? = some line)
    (isJump : line.control? = some (.jump condition target))
    (targetAt : code[following]? = some (.label target))
    (inside : (Line.label target).clears = false) :
    supplyAfter [] (code.take following) =
      supplyAfter [] (code.take position) := by
  obtain ⟨before, same⟩ := List.getElem?_eq_some_iff.mp lineAt
  have split := List.drop_eq_getElem_cons before
  rw [same] at split
  have fromJump := compact.drop position
  rw [split] at fromJump
  obtain ⟨between, after, rest, neutral⟩ :=
    fromJump.1 condition target isJump inside
  have lineNeutral := Line.isNeutral_of_jump isJump
  have passed :
      Placed code position (line :: between) := by
    refine ⟨.label target :: after, ?_⟩
    rw [split, rest, List.cons_append]
  have landed : following = position + (line :: between).length := by
    refine label_position_unique unique targetAt ?_
    rw [← List.getElem?_drop, split, rest, ← List.cons_append,
      List.getElem?_append_right (Nat.le_refl _), Nat.sub_self]
    rfl
  obtain ⟨remaining, shape⟩ := passed
  rw [landed, List.take_add, ← shape, List.take_left, supplyAfter_append]
  exact supplyAfter_of_neutral
    (List.forall_mem_cons.mpr ⟨lineNeutral, neutral⟩) _

end Compact

/--
The cells known to be written in front of a line have been written on every walk
to it, unless the line is the label of a statement.
-/
theorem written_on_walk
    {code passed : List Line}
    {line : Line}
    {cell : Cell}
    {position : Nat}
    (compact : Compact code)
    (unique : (labels code).Nodup)
    (walk : Walk code passed position)
    (lineAt : code[position]? = some line)
    (keeps : line.clears = false)
    (known : cell ∈ supplyAfter [] (code.take position)) :
    ∃ earlier ∈ passed, earlier.written? = some cell := by
  induction walk generalizing line with
  | start =>
      cases known
  | @next passed position following previous walk previousAt goesOn
      inductionHypothesis =>
      rcases successors_cases previousAt goesOn with
        rfl | ⟨condition, target, isJump, resolved⟩
      · rw [List.take_add_one, previousAt, Option.toList_some,
          supplyAfter_append] at known
        rcases Line.mem_supply known with written | ⟨previousKeeps, knownBefore⟩
        · exact ⟨previous, by simp, written⟩
        · obtain ⟨earlier, member, written⟩ :=
            inductionHypothesis previousAt previousKeeps knownBefore
          exact ⟨earlier, List.mem_append_left _ member, written⟩
      · have targetAt := label_of_labelPosition? resolved
        obtain rfl : line = .label target :=
          Option.some.inj (lineAt.symm.trans targetAt)
        rw [compact.supplyAfter_target unique previousAt isJump targetAt
          keeps] at known
        obtain ⟨earlier, member, written⟩ :=
          inductionHypothesis previousAt (Line.isNeutral_of_jump isJump).1 known
        exact ⟨earlier, List.mem_append_left _ member, written⟩

/-- The names that lines declare, in their order. -/
def declaredNames (data : List Line) : List String :=
  data.filterMap fun line =>
    match line with
    | .declare declaration => some declaration.cell.name
    | _ => none

/-- Whether a name starts with a word. -/
def isNamed
    (word name : String) :
    Bool :=
  word.toList.isPrefixOf name.toList

theorem isNamed_append
    (word rest : String) :
    isNamed word (word ++ rest) = true := by
  simp [isNamed, String.toList_append]

/-- A name that starts with a reserved word is reserved. -/
theorem isReserved_of_isNamed
    {word name : String}
    (reserved : isReserved word = true)
    (named : isNamed word name = true) :
    isReserved name = true := by
  obtain ⟨rest, shape⟩ := List.isPrefixOf_iff_prefix.mp named
  rw [isReserved, beq_iff_eq] at reserved ⊢
  rw [← shape, List.head?_append, reserved, Option.some_or]

/-- How many lines use a cell of the given name in some way. -/
def useCount
    (use : Line → Option Cell)
    (code : List Line)
    (name : String) :
    Nat :=
  code.countP fun line => (use line).map Cell.name == some name

/--
Where all cells in use are proper, a name stands for the one cell that has it.
-/
theorem useCount_name
    {use : Line → Option Cell}
    {code : List Line}
    {cell : Cell}
    (proper : ∀ line ∈ code, ∀ other, use line = some other → other.IsProper)
    (cellProper : cell.IsProper) :
    useCount use code cell.name =
      code.countP fun line => use line == some cell := by
  refine List.countP_congr fun line member => ?_
  cases used : use line with
  | none =>
      simp
  | some other =>
      simp only [Option.map_some, beq_iff_eq, Option.some.injEq]
      constructor
      · exact Cell.eq_of_proper (proper line member other used) cellProper
      · rintro rfl
        rfl

section Orderly

variable
    {code : List Line}
    (orderly : ∀ line ∈ code, line.IsOrderly)

include orderly

theorem useCount_written
    {cell : Cell}
    (proper : cell.IsProper) :
    useCount Line.written? code cell.name =
      code.countP fun line => line.written? == some cell :=
  useCount_name
    (fun line member _ => (orderly line member).proper_of_written) proper

/--
Among orderly lines the name of a cell is stored to and written where
the cell is filled.
-/
theorem useCount_of_filledBy
    {cell : Cell}
    {stored? : Line → Option Cell}
    (fills : FilledBy cell stored?) :
    useCount stored? code cell.name =
        code.countP (fun line => line.filled? == some cell) ∧
      useCount Line.written? code cell.name =
        code.countP fun line => line.filled? == some cell := by
  have proper :
      ∀ line ∈ code, ∀ other, stored? line = some other → other.IsProper :=
    fun line member other stores =>
      (orderly line member).proper_of_written (fills.written?_of_stored stores)
  rw [useCount_name proper fills.isProper,
    useCount_written orderly fills.isProper]
  constructor
  · refine List.countP_congr fun line _ => ?_
    rw [beq_iff_eq, beq_iff_eq, fills.filled?_iff]
  · refine List.countP_congr fun line member => ?_
    rw [beq_iff_eq, beq_iff_eq, fills.written?_iff (orderly line member),
      fills.filled?_iff]

theorem useCount_written_literal (number : Nat) :
    useCount Line.written? code (Cell.literal number).name = 0 := by
  rw [useCount_written orderly (Cell.isProper_literal number),
    List.countP_eq_zero]
  intro line member writes
  exact (orderly line member).written?_ne_literal number (eq_of_beq writes)

end Orderly

/-- A name that a line reads is that of one proper cell. -/
theorem Line.IsOrderly.read?_of_name
    {line : Line}
    {cell : Cell}
    (orderly : line.IsOrderly)
    (proper : cell.IsProper)
    (reads : line.read?.map Cell.name = some cell.name) :
    line.read? = some cell := by
  obtain ⟨other, isRead, sameName⟩ := Option.map_eq_some_iff.mp reads
  rw [isRead, Cell.eq_of_proper (orderly.proper_of_read isRead) proper sameName]

/--
The generated cells of a listing, which are told from their names alone, are
numbered without gaps in the order of their declarations. Every temporary and
every slot is written by one line only, which every walk to a line that reads
the cell has passed, and no literal is ever written.
-/
structure CellsOrdered (listing : Listing) : Prop where
  cellsNumbered :
    ∃ count,
      List.Forall₂
        (fun name number =>
          name = (Cell.temporary number).name ∨
            name = (Cell.literal number).name)
        ((declaredNames listing.data).filter fun name =>
          isNamed "@tmp" name || isNamed "@lit" name)
        (List.range' 1 count)
  slotsNumbered :
    ∃ count,
      (declaredNames listing.data).filter (isNamed "@intSlot") =
        (List.range' 1 count).map fun number => (Cell.slot number).name
  temporariesStoredOnce :
    ∀ number, (Cell.temporary number).name ∈ declaredNames listing.data →
      useCount Line.storedReal? listing.code (Cell.temporary number).name = 1 ∧
        useCount Line.written? listing.code (Cell.temporary number).name = 1
  slotsStoredOnce :
    ∀ number, (Cell.slot number).name ∈ declaredNames listing.data →
      useCount Line.storedInteger? listing.code (Cell.slot number).name = 1 ∧
        useCount Line.written? listing.code (Cell.slot number).name = 1
  literalsNeverWritten :
    ∀ number, useCount Line.written? listing.code (Cell.literal number).name = 0
  temporariesStoredFirst :
    ∀ {passed : List Line} {position : Nat} {line : Line} (number : Nat),
      Walk listing.code passed position →
        listing.code[position]? = some line →
          line.read?.map Cell.name = some (Cell.temporary number).name →
            0 < useCount Line.storedReal? passed (Cell.temporary number).name
  slotsStoredFirst :
    ∀ {passed : List Line} {position : Nat} {line : Line} (number : Nat),
      Walk listing.code passed position →
        listing.code[position]? = some line →
          line.read?.map Cell.name = some (Cell.slot number).name →
            0 < useCount Line.storedInteger? passed (Cell.slot number).name

end Coprocessor.Assembly
