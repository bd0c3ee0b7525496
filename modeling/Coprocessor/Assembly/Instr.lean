import Coprocessor.Tree.Kind

namespace Coprocessor.Assembly

/-!
# Instructions

The instructions of a listing: the coprocessor instructions on its register
stack, the few processor instructions that move its status and control words,
and jumps. Cells of memory and labels are named by what they are for; their
written names follow from that.
-/

/-- A cell of memory. Literals and temporaries share one numbering. -/
inductive Cell where
  | variable (name : String)
  | temporary (number : Nat)
  | literal (number : Nat)
  | slot (number : Nat)
  | savedControl
  | floorControl
  | scratch (name : String)
  deriving Repr, DecidableEq

/-- The name of a cell in the listing. -/
def Cell.name : Cell → String
  | .variable name => name
  | .temporary number => "@tmp" ++ toString number
  | .literal number => "@lit" ++ toString number
  | .slot number => "@intSlot" ++ toString number
  | .savedControl => "@cwSave"
  | .floorControl => "@cwFloor"
  | .scratch name => "@" ++ name

/-- A cell as an operand. -/
def Cell.operand (cell : Cell) : String :=
  "[" ++ cell.name ++ "]"

/-- The places of a construct that jumps lead to. -/
inductive Landmark where
  | elseBranch
  | endOfConditional
  | loopStart
  | endOfLoop
  | comparisonHolds
  | endOfComparison
  deriving Repr, DecidableEq

/-- The word that starts the labels of a landmark. -/
def Landmark.word : Landmark → String
  | .elseBranch => "ELSE"
  | .endOfConditional => "END_IF"
  | .loopStart => "WHILE"
  | .endOfLoop => "ENDWHILE"
  | .comparisonHolds => "CMPTRUE"
  | .endOfComparison => "CMPEND"

/-- A label: a landmark of the construct with a number. -/
structure Label where
  landmark : Landmark
  number : Nat
  deriving Repr, DecidableEq

/-- The name of a label in the listing. -/
def Label.name (label : Label) : String :=
  label.landmark.word ++ toString label.number

/-- When a jump is taken. The last four conditions compare signed numbers. -/
inductive Condition where
  | always
  | equal
  | notEqual
  | above
  | aboveOrEqual
  | below
  | belowOrEqual
  | greater
  | greaterOrEqual
  | less
  | lessOrEqual
  deriving Repr, DecidableEq

/-- An instruction. -/
inductive Instr where
  /-- Push the real number in a cell. -/
  | load (source : Cell)
  /-- Push the integer in a cell. -/
  | loadInteger (source : Cell)
  /-- Push zero. -/
  | loadZero
  /-- Push one. -/
  | loadOne
  /-- Pop a real number into a cell. -/
  | store (target : Cell)
  /-- Pop a number, rounded to an integer, into a cell. -/
  | storeInteger (target : Cell)
  /-- Pop a number and forget it. -/
  | discard
  /-- Combine the topmost number with the one below it, which stays. -/
  | combine (operation : Arithmetic)
  /-- Subtract the number in a cell from the topmost number. -/
  | subtractCell (source : Cell)
  /-- Compare the topmost number with zero. -/
  | test
  /-- Copy the status word to the accumulator. -/
  | storeStatus
  /-- Set the processor flags from the accumulator. -/
  | setFlags
  /-- Copy the control word to a cell. -/
  | storeControl (target : Cell)
  /-- Set the control word from a cell. -/
  | loadControl (source : Cell)
  /-- Copy a cell to the accumulator. -/
  | loadAccumulator (source : Cell)
  /-- Copy the accumulator to a cell. -/
  | storeAccumulator (target : Cell)
  /-- Clear the bits of the accumulator that a mask does not hold. -/
  | maskAccumulator (mask : BitVec 16)
  /-- Set the bits of the accumulator that a mask holds. -/
  | raiseAccumulator (mask : BitVec 16)
  /-- Go on at a label if a condition holds. -/
  | jump (condition : Condition) (target : Label)
  deriving Repr, DecidableEq

/-- The mnemonic of an arithmetic instruction. -/
def arithmeticMnemonic : Arithmetic → String
  | .add => "FADD"
  | .subtract => "FSUB"
  | .multiply => "FMUL"
  | .divide => "FDIV"

/--
The mnemonic of a jump. A jump without a condition is in capitals within
a comparison only.
-/
def jumpMnemonic
    (condition : Condition)
    (target : Landmark) :
    String :=
  match condition, target with
  | .always, .comparisonHolds | .always, .endOfComparison => "JMP"
  | .always, _ => "jmp"
  | .equal, _ => "JE"
  | .notEqual, _ => "JNE"
  | .above, _ => "JA"
  | .aboveOrEqual, _ => "JAE"
  | .below, _ => "JB"
  | .belowOrEqual, _ => "JBE"
  | .greater, _ => "JG"
  | .greaterOrEqual, _ => "JGE"
  | .less, _ => "JL"
  | .lessOrEqual, _ => "JLE"

/-- The capital hexadecimal digit of a number below sixteen. -/
def hexDigit (value : Nat) : Char :=
  (Nat.digitChar value).toUpper

/--
A word in hexadecimal, with a zero before a leading letter and the mark
of the base behind.
-/
def hexWord (value : BitVec 16) : String :=
  let number := value.toNat
  let digits :=
    [hexDigit (number / 4096), hexDigit (number / 256 % 16),
      hexDigit (number / 16 % 16), hexDigit (number % 16)]
  String.ofList
    ((if number / 4096 < 10 then digits else '0' :: digits) ++ ['h'])

namespace Instr

/-- The mnemonic of an instruction. -/
def mnemonic : Instr → String
  | .load _ => "FLD"
  | .loadInteger _ => "FILD"
  | .loadZero => "FLDZ"
  | .loadOne => "FLD1"
  | .store _ | .discard => "FSTP"
  | .storeInteger _ => "FISTP"
  | .combine operation => arithmeticMnemonic operation
  | .subtractCell _ => arithmeticMnemonic .subtract
  | .test => "FTST"
  | .storeStatus => "FSTSW"
  | .setFlags => "SAHF"
  | .storeControl _ => "FSTCW"
  | .loadControl _ => "FLDCW"
  | .loadAccumulator _ | .storeAccumulator _ => "MOV"
  | .maskAccumulator _ => "AND"
  | .raiseAccumulator _ => "OR"
  | .jump condition target => jumpMnemonic condition target.landmark

/-- The operands of an instruction, if it has any. -/
def operands? : Instr → Option String
  | .load cell | .loadInteger cell | .store cell | .storeInteger cell
  | .subtractCell cell | .storeControl cell | .loadControl cell =>
      some cell.operand
  | .loadZero | .loadOne | .test | .setFlags => none
  | .discard => some "ST0"
  | .combine _ => some "ST0, ST1"
  | .storeStatus => some "AX"
  | .loadAccumulator cell => some ("AX," ++ cell.operand)
  | .storeAccumulator cell => some (cell.operand ++ ",AX")
  | .maskAccumulator mask | .raiseAccumulator mask =>
      some ("AX," ++ hexWord mask)
  | .jump _ target => some target.name

/-- The cell that an instruction names, if it names one. -/
def cell? : Instr → Option Cell
  | .load cell | .loadInteger cell | .store cell | .storeInteger cell
  | .subtractCell cell | .storeControl cell | .loadControl cell
  | .loadAccumulator cell | .storeAccumulator cell => some cell
  | _ => none

end Instr

end Coprocessor.Assembly
