import Coprocessor.Proofs.Assembly.Flow
import Coprocessor.Proofs.Decimal.Value

namespace Coprocessor.Machine

open Assembly

/-!
# The machine

A processor with a floating-point coprocessor runs the code section of a
listing. Its memory is addressed by the written names of cells, and jumps are
resolved by the written names of labels. What numbers are, how they are combined
and rounded and how many of them fit on the register stack is left to a
parameter, so that one machine serves exact numbers as well as others. The
machine stops at the call that ends the program, and it is stuck wherever an
instruction lacks a register or finds something else than it expects.
-/

/-- The outcome of a comparison with zero. -/
inductive Sign where
  | negative
  | zero
  | positive
  | unordered
  deriving Repr, DecidableEq

/-- How a number is rounded to an integer. -/
inductive Rounding where
  | nearest
  | down
  | up
  | towardZero
  deriving Repr, DecidableEq

/-- What the coprocessor does with numbers. -/
structure Numerics (Value : Type) where
  /-- Whether a stack of the given depth takes one more number. -/
  hasRoom : Nat → Bool
  ofRat : ℚ → Value
  ofInteger : Int → Value
  combine : Arithmetic → Value → Value → Value
  toInteger : Rounding → Value → Int
  sign : Value → Sign

/-- What a cell of memory holds. -/
inductive Content (Value : Type) where
  | real (value : Value)
  | integer (value : Int)
  | word (value : BitVec 16)

/-- The processor flags that conditions of jumps depend on. -/
structure Flags where
  carry : Bool
  zero : Bool
  sign : Bool
  overflow : Bool
  deriving Repr, DecidableEq

/-- Whether a condition holds. -/
def Flags.satisfy
    (flags : Flags) :
    Condition → Bool
  | .always => true
  | .equal => flags.zero
  | .notEqual => !flags.zero
  | .above => !flags.carry && !flags.zero
  | .aboveOrEqual => !flags.carry
  | .below => flags.carry
  | .belowOrEqual => flags.carry || flags.zero
  | .greater => !flags.zero && flags.sign == flags.overflow
  | .greaterOrEqual => flags.sign == flags.overflow
  | .less => flags.sign != flags.overflow
  | .lessOrEqual => flags.zero || flags.sign != flags.overflow

/-- The flags after a logical operation with the given result. -/
def Flags.ofResult (result : BitVec 16) : Flags :=
  ⟨false, result == 0, result.msb, false⟩

/-- Everything but the position in the code. -/
structure Core (Value : Type) where
  registers : List Value
  memory : String → Content Value
  control : BitVec 16
  status : BitVec 16
  accumulator : BitVec 16
  flags : Flags

/-- The rounding that a control word asks for in its bits ten and eleven. -/
def roundingOf (control : BitVec 16) : Rounding :=
  match control.getLsbD 11, control.getLsbD 10 with
  | false, false => .nearest
  | false, true => .down
  | true, false => .up
  | true, true => .towardZero

/--
The status word after a comparison with zero: the condition bits 8, 10
and 14 tell the sign.
-/
def statusAfter
    (status : BitVec 16)
    (sign : Sign) :
    BitVec 16 :=
  (status &&& 0xB8FF) |||
    match sign with
    | .positive => 0x0000
    | .negative => 0x0100
    | .zero => 0x4000
    | .unordered => 0x4500

section Execution

variable
    {Value : Type}
    (numerics : Numerics Value)

/-- Push a number, if there is room for it. -/
def push
    (value : Value)
    (core : Core Value) :
    Option (Core Value) :=
  if numerics.hasRoom core.registers.length then
    some { core with registers := value :: core.registers }
  else
    none

/-- Put something in a cell. -/
def Core.put
    (core : Core Value)
    (target : Cell)
    (content : Content Value) :
    Core Value :=
  { core with memory := Function.update core.memory target.name content }

/-- Carry out an instruction, apart from going on elsewhere. -/
def execute
    (core : Core Value) :
    Instr → Option (Core Value)
  | .load source =>
      match core.memory source.name with
      | .real value => push numerics value core
      | _ => none
  | .loadInteger source =>
      match core.memory source.name with
      | .integer value => push numerics (numerics.ofInteger value) core
      | _ => none
  | .loadZero => push numerics (numerics.ofRat 0) core
  | .loadOne => push numerics (numerics.ofRat 1) core
  | .store target =>
      match core.registers with
      | top :: rest =>
          some ({ core with registers := rest }.put target (.real top))
      | [] => none
  | .storeInteger target =>
      match core.registers with
      | top :: rest =>
          some ({ core with registers := rest }.put target
            (.integer (numerics.toInteger (roundingOf core.control) top)))
      | [] => none
  | .discard =>
      match core.registers with
      | _ :: rest => some { core with registers := rest }
      | [] => none
  | .combine operation =>
      match core.registers with
      | top :: below :: rest =>
          some { core with
            registers := numerics.combine operation top below :: below :: rest }
      | _ => none
  | .subtractCell source =>
      match core.registers, core.memory source.name with
      | top :: rest, .real value =>
          some { core with
            registers := numerics.combine .subtract top value :: rest }
      | _, _ => none
  | .test =>
      match core.registers with
      | top :: _ =>
          some { core with
            status := statusAfter core.status (numerics.sign top) }
      | [] => none
  | .storeStatus => some { core with accumulator := core.status }
  | .setFlags =>
      some { core with
        flags :=
          { core.flags with
            carry := core.accumulator.getLsbD 8
            zero := core.accumulator.getLsbD 14
            sign := core.accumulator.getLsbD 15 } }
  | .storeControl target => some (core.put target (.word core.control))
  | .loadControl source =>
      match core.memory source.name with
      | .word value => some { core with control := value }
      | _ => none
  | .loadAccumulator source =>
      match core.memory source.name with
      | .word value => some { core with accumulator := value }
      | _ => none
  | .storeAccumulator target => some (core.put target (.word core.accumulator))
  | .maskAccumulator mask =>
      some { core with
        accumulator := core.accumulator &&& mask
        flags := .ofResult (core.accumulator &&& mask) }
  | .raiseAccumulator mask =>
      some { core with
        accumulator := core.accumulator ||| mask
        flags := .ofResult (core.accumulator ||| mask) }
  | .jump _ _ => some core

/-- What a line does, apart from going on elsewhere. -/
def effect
    (core : Core Value) :
    Line → Option (Core Value)
  | .instr code _ => execute numerics core code
  | .blank | .comment _ | .remark _ | .directive _ | .declare _ | .label _ =>
      some core

/-- A position in the code and all the rest. -/
structure State (Value : Type) where
  position : Nat
  core : Core Value

/-- The call that ends the program. -/
def exitLine : Line :=
  .directive "int 21h"

/--
Pass one line; there is no step at the end of the program and where
the machine is stuck.
-/
def step
    (code : List Line)
    (state : State Value) :
    Option (State Value) :=
  match code[state.position]? with
  | none => none
  | some line =>
      if line = exitLine then
        none
      else
        match line.control? with
        | some (.jump condition target) =>
            if state.core.flags.satisfy condition then
              (labelPosition? code target).map fun position =>
                ⟨position, state.core⟩
            else
              some ⟨state.position + 1, state.core⟩
        | _ =>
            (effect numerics state.core line).map fun core =>
              ⟨state.position + 1, core⟩

/-- Pass a number of lines. -/
def run
    (code : List Line) :
    Nat → State Value → Option (State Value)
  | 0, state => some state
  | count + 1, state => (step numerics code state).bind (run code count)

/-- The machine has come to the end of the program. -/
def AtExit
    (code : List Line)
    (state : State Value) :
    Prop :=
  code[state.position]? = some exitLine

/-- What a cell holds at first; the room for a text is left as it is. -/
def initialContent? : Storage → Option (Content Value)
  | .integer => some (.integer 0)
  | .real initial =>
      some (.real (numerics.ofRat (Decimal.textValue initial.toList)))
  | .text => none
  | .controlWord => some (.word 0)

/--
The name and the content of the cell that a line fills; the contents of
variables are given.
-/
def loaded? : Line → Option (String × Content Value)
  | .declare ⟨.variable _, _⟩ => none
  | .declare ⟨cell, storage⟩ =>
      (initialContent? numerics storage).map fun content =>
        (cell.name, content)
  | _ => none

/-- Fill cells one after the other. -/
def load
    (memory : String → Content Value)
    (entries : List (String × Content Value)) :
    String → Content Value :=
  entries.foldl
    (fun filled entry => Function.update filled entry.1 entry.2) memory

/--
The machine in front of the first line, with the data section loaded
and variables given.
-/
def startOf
    (listing : Listing)
    (cells : String → Value)
    (core : Core Value) :
    State Value :=
  { position := 0
    core :=
      { core with
        registers := []
        memory :=
          load (fun name => .real (cells name))
            (listing.data.filterMap (loaded? numerics)) } }

end Execution

/-- The variables have the given values in memory. -/
def Core.Holds
    {Value : Type}
    (core : Core Value)
    (cells : String → Value) :
    Prop :=
  ∀ name, isReserved name = false → core.memory name = .real (cells name)

end Coprocessor.Machine
