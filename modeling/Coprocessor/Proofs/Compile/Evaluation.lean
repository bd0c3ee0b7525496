import Coprocessor.Proofs.Compile.Cells
import Coprocessor.Proofs.Language.Meaning
import Coprocessor.Proofs.Machine.Run

namespace Coprocessor.Compile

open Assembly Machine

/-!
# Running the code of expressions

From an empty register stack the code of an operation leaves its value in a
temporary. It leaves the stack empty and the control word as it was, and it
changes no cell but those that it numbers itself and the two cells for the
control word.
-/

variable
    {Value : Type}
    {numerics : Numerics Value}
    {meaning : Meaning Value}
    {rounding : Rounding}

/--
The coprocessor combines numbers as a meaning asks for: a modulo goes through a
quotient that is rounded in the given way, a comparison through the sign of a
difference, and there is room for the two numbers that code has on the stack.
-/
structure Realizes
    (numerics : Numerics Value)
    (rounding : Rounding)
    (meaning : Meaning Value) :
    Prop where
  room :
    numerics.hasRoom 0 = true ∧ numerics.hasRoom 1 = true
  ofRat :
    ∀ value, numerics.ofRat value = meaning.ofRat value
  arithmetic :
    ∀ operation left right,
      numerics.combine operation left right =
        meaning.arithmetic operation left right
  modulo :
    ∀ left right,
      numerics.combine .subtract left
          (numerics.combine .multiply
            (numerics.ofInteger
              (numerics.toInteger rounding
                (numerics.combine .divide left right)))
            right) =
        meaning.modulo left right
  comparison :
    ∀ relation left right,
      (if Flags.satisfy
          (.ofSign (numerics.sign (numerics.combine .subtract left right)))
          (failsUnsigned relation) then
        numerics.ofRat 0
      else
        numerics.ofRat 1) =
        meaning.comparison relation left right
  truth :
    ∀ value, meaning.IsTrue value ↔ (numerics.sign value).zeroFlag = false

/-- How a quotient is rounded where the control word is as given. -/
def quotientRounding
    (control : BitVec 16) :
    QuotientRounding → Rounding
  | .floor => .down
  | .ambient => roundingOf control

section Pieces

variable
    {core : Core Value}
    {left right : Cell}
    {first second : Value}

theorem passLines_combineCode
    (room : numerics.hasRoom 0 = true ∧ numerics.hasRoom 1 = true)
    (empty : core.registers = [])
    (leftHolds : core.memory left.name = .real first)
    (rightHolds : core.memory right.name = .real second)
    (operation : Arithmetic)
    (result : Cell) :
    passLines numerics core (combineCode operation left right result) =
      some (core.put result
        (.real (numerics.combine operation first second))) := by
  rcases core with ⟨registers, memory, control, status, accumulator, flags⟩
  obtain rfl : registers = [] := empty
  simp only at leftHolds rightHolds
  simp [combineCode, Line.code, passLines, effect, execute, push, Core.put,
    leftHolds, rightHolds, room.1, room.2]

/--
The flags tell the sign of the topmost number, and nothing else
changes that matters.
-/
theorem passLines_flagsOfTop
    (numerics : Numerics Value)
    {rest : List Value}
    (top : core.registers = first :: rest) :
    ∃ after, passLines numerics core flagsOfTop = some after ∧
      after.registers = core.registers ∧ after.memory = core.memory ∧
      after.control = core.control ∧
      after.flags.carry = (numerics.sign first).carry ∧
      after.flags.zero = (numerics.sign first).zeroFlag := by
  have bits := getLsbD_statusAfter core.status (numerics.sign first)
  simp only [flagsOfTop, Line.code, passLines, effect, execute, top,
    Option.some.injEq]
  exact ⟨_, rfl, rfl, rfl, rfl, bits.1, bits.2⟩

/-- A quotient is rounded into a slot, and the control word is as before. -/
theorem passLines_roundCode
    (room : numerics.hasRoom 0 = true)
    (empty : core.registers = [])
    (holds : core.memory left.name = .real first)
    (mode : QuotientRounding)
    (number : Nat) :
    ∃ after,
      passLines numerics core (roundCode mode left (.slot number)) =
        some after ∧
      after.registers = [] ∧ after.control = core.control ∧
      after.memory (Cell.slot number).name =
        .integer
          (numerics.toInteger (quotientRounding core.control mode) first) ∧
      ∀ cell : Cell,
        cell.IsProper → cell ∉ [.slot number, .savedControl, .floorControl] →
        after.memory cell.name = core.memory cell.name := by
  rcases core with ⟨registers, memory, control, status, accumulator, flags⟩
  obtain rfl : registers = [] := empty
  simp only at holds
  have slotProper : (Cell.slot number).IsProper := trivial
  have savedProper : Cell.savedControl.IsProper := trivial
  have floorProper : Cell.floorControl.IsProper := trivial
  cases mode with
  | ambient =>
      simp only [roundCode, Line.code, passLines, effect, execute, push,
        Core.put, holds, List.length_nil, room, ↓reduceIte, Option.some.injEq]
      refine ⟨_, rfl, rfl, rfl, Function.update_self _ _ _, ?_⟩
      intro cell proper different
      exact Function.update_of_ne
        (Cell.name_ne_of_proper proper slotProper (by simp_all)) _ _
  | floor =>
      have savedFloor : Cell.savedControl.name ≠ Cell.floorControl.name := by
        decide
      have savedSlot : Cell.savedControl.name ≠ (Cell.slot number).name :=
        Cell.name_ne_of_proper savedProper slotProper (by simp)
      simp only [roundCode, Line.code, passLines, effect, execute, push,
        Core.put, holds, List.length_nil, room, ↓reduceIte,
        Function.update_self, Function.update_of_ne savedFloor,
        Function.update_of_ne savedSlot, Option.some.injEq]
      refine ⟨_, rfl, rfl, rfl, ?_, ?_⟩
      · dsimp only
        rw [Function.update_self, roundingOf_floor]
        rfl
      · intro cell proper different
        simp only [List.mem_cons, List.not_mem_nil, or_false,
          not_or] at different
        dsimp only
        rw [Function.update_of_ne
          (Cell.name_ne_of_proper proper slotProper different.1),
          Function.update_of_ne
            (Cell.name_ne_of_proper proper floorProper different.2.2),
          Function.update_of_ne
            (Cell.name_ne_of_proper proper savedProper different.2.1)]

theorem passLines_wholeCode
    {slot : Cell}
    {whole : Int}
    (room : numerics.hasRoom 0 = true)
    (empty : core.registers = [])
    (holds : core.memory slot.name = .integer whole)
    (result : Cell)
    (title : String) :
    passLines numerics core
        [.code (.loadInteger slot), .code (.store result), .blank,
          .comment title] =
      some (core.put result (.real (numerics.ofInteger whole))) := by
  rcases core with ⟨registers, memory, control, status, accumulator, flags⟩
  obtain rfl : registers = [] := empty
  simp only at holds
  simp [Line.code, passLines, effect, execute, push, Core.put, holds, room]

theorem passLines_differenceCode
    (room : numerics.hasRoom 0 = true)
    (empty : core.registers = [])
    (leftHolds : core.memory left.name = .real first)
    (rightHolds : core.memory right.name = .real second)
    (result : Cell)
    (title : String) :
    passLines numerics core
        [.blank, .comment title, .code (.load left),
          .code (.subtractCell right),
          .code (.store result)] =
      some (core.put result
        (.real (numerics.combine .subtract first second))) := by
  rcases core with ⟨registers, memory, control, status, accumulator, flags⟩
  obtain rfl : registers = [] := empty
  simp only at leftHolds rightHolds
  simp [Line.code, passLines, effect, execute, push, Core.put, leftHolds,
    rightHolds, room]

end Pieces

/-- The cells that code compiled from the given counters may change. -/
def Fresh
    (counters : Counters) :
    Cell → Prop
  | .temporary number => counters.cells < number
  | .slot number => counters.slots < number
  | .savedControl | .floorControl => True
  | .variable _ | .literal _ | .scratch _ => False

/--
What the code of an operand leaves behind: the stack empty, the control word as
it was, the value in its cell, and all cells that are not fresh as they were.
-/
structure Leaves
    (counters : Counters)
    (cell : Cell)
    (value : Value)
    (before after : Core Value) :
    Prop where
  empty :
    after.registers = []
  control :
    after.control = before.control
  holds :
    after.memory cell.name = .real value
  kept :
    ∀ other : Cell, other.IsProper → ¬ Fresh counters other →
      after.memory other.name = before.memory other.name

/-- Of two operands one behind the other, the second is what remains. -/
theorem Leaves.trans
    {counters : Counters}
    {firstCell secondCell : Cell}
    {first second : Value}
    {before middle after : Core Value}
    (earlier : Leaves counters firstCell first before middle)
    (later : Leaves counters secondCell second middle after) :
    Leaves counters secondCell second before after where
  empty := later.empty
  control := later.control.trans earlier.control
  holds := later.holds
  kept := by
    intro other proper notFresh
    rw [later.kept other proper notFresh, earlier.kept other proper notFresh]

/-- Only the memory and the control word count of what was before. -/
theorem Leaves.of_same
    {counters : Counters}
    {cell : Cell}
    {value : Value}
    {before other after : Core Value}
    (leaves : Leaves counters cell value other after)
    (sameMemory : other.memory = before.memory)
    (sameControl : other.control = before.control) :
    Leaves counters cell value before after where
  empty := leaves.empty
  control := leaves.control.trans sameControl
  holds := leaves.holds
  kept := by
    rw [← sameMemory]
    exact leaves.kept

/-- Filling a fresh temporary with the value is all that is needed. -/
theorem leaves_put
    {core : Core Value}
    (empty : core.registers = [])
    (counters : Counters)
    {number : Nat}
    (fresh : counters.cells < number)
    (value : Value) :
    Leaves counters (.temporary number) value core
      (core.put (.temporary number) (.real value)) where
  empty := empty
  control := rfl
  holds := core.put_self _ _
  kept := by
    intro other proper notFresh
    refine core.put_of_ne _ (Cell.isProper_temporary number) proper ?_
    rintro rfl
    exact notFresh fresh

/-- The conditions of comparisons depend on two flags only. -/
theorem satisfy_failsUnsigned
    {flags : Flags}
    {sign : Sign}
    (carry : flags.carry = sign.carry)
    (zero : flags.zero = sign.zeroFlag)
    (relation : Relation) :
    flags.satisfy (failsUnsigned relation) =
      Flags.satisfy (.ofSign sign) (failsUnsigned relation) := by
  cases relation <;>
    simp [failsUnsigned, Flags.satisfy, Flags.ofSign, carry, zero]

section Operations

variable
    {core : Core Value}
    {counters : Counters}
    {left right : Cell}
    {first second : Value}
    (room : numerics.hasRoom 0 = true ∧ numerics.hasRoom 1 = true)
    (empty : core.registers = [])
    (leftOld : left.IsProper ∧ ¬ Fresh counters left)
    (rightOld : right.IsProper ∧ ¬ Fresh counters right)
    (leftHolds : core.memory left.name = .real first)
    (rightHolds : core.memory right.name = .real second)

include room empty leftHolds rightHolds

theorem leaves_arithmeticCode (operation : Arithmetic) :
    ∃ after,
      passLines numerics core
          (arithmeticCode operation left right
            (.temporary (counters.cells + 1))) =
        some after ∧
      Leaves counters (.temporary (counters.cells + 1))
        (numerics.combine operation first second) core after := by
  refine ⟨_, ?_, leaves_put empty counters (Nat.lt_succ_self _) _⟩
  have combines :=
    passLines_combineCode room empty leftHolds rightHolds operation
      (.temporary (counters.cells + 1))
  exact passLines_append_of_some (passLines_append_of_some rfl combines) rfl

/-- The first half of a modulo leaves the rounded quotient in a temporary. -/
theorem leaves_quotient (mode : QuotientRounding) :
    ∃ after,
      passLines numerics core
          ([Line.remark "quotient = left / right"] ++
            combineCode .divide left right
              (.temporary (counters.cells + 1)) ++
            roundCode mode (.temporary (counters.cells + 1))
              (.slot (counters.slots + 1)) ++
            [.code (.loadInteger (.slot (counters.slots + 1))),
              .code (.store (.temporary (counters.cells + 2))),
              .blank, .comment "product = whole quotient * right"]) =
        some after ∧
      Leaves counters (.temporary (counters.cells + 2))
        (numerics.ofInteger
          (numerics.toInteger (quotientRounding core.control mode)
            (numerics.combine .divide first second)))
        core after := by
  have divides :=
    passLines_combineCode room empty leftHolds rightHolds .divide
      (.temporary (counters.cells + 1))
  have divided :=
    leaves_put empty counters (Nat.lt_succ_self _)
      (numerics.combine .divide first second)
  obtain ⟨rounded, rounds, roundedEmpty, roundedControl, roundedHolds,
    roundedKept⟩ :=
    passLines_roundCode room.1 divided.empty divided.holds mode
      (counters.slots + 1)
  have converts :=
    passLines_wholeCode room.1 roundedEmpty roundedHolds
      (.temporary (counters.cells + 2)) "product = whole quotient * right"
  have converted :=
    leaves_put roundedEmpty counters
      (show counters.cells < counters.cells + 2 by omega)
      (numerics.ofInteger
        (numerics.toInteger (quotientRounding core.control mode)
          (numerics.combine .divide first second)))
  refine ⟨_,
    passLines_append_of_some
      (passLines_append_of_some (passLines_append_of_some rfl divides) rounds)
      converts,
    converted.empty, roundedControl, converted.holds, ?_⟩
  intro other proper notFresh
  have notRounded :
      other ∉ [.slot (counters.slots + 1), .savedControl, .floorControl] := by
    intro member
    simp only [List.mem_cons, List.not_mem_nil, or_false] at member
    rcases member with rfl | rfl | rfl
    · exact notFresh (Nat.lt_succ_self _)
    · exact notFresh trivial
    · exact notFresh trivial
  exact (converted.kept other proper notFresh).trans
    ((roundedKept other proper notRounded).trans
      (divided.kept other proper notFresh))

/--
A comparison first tests the difference of its operands, which
stays on the stack.
-/
theorem passLines_comparisonTest (title : String) :
    ∃ after,
      passLines numerics core
          ([Line.blank, .comment title, .code (.load left),
            .code (.subtractCell right)] ++ flagsOfTop) =
        some after ∧
      after.registers = [numerics.combine .subtract first second] ∧
      after.memory = core.memory ∧ after.control = core.control ∧
      after.flags.carry =
        (numerics.sign (numerics.combine .subtract first second)).carry ∧
      after.flags.zero =
        (numerics.sign (numerics.combine .subtract first second)).zeroFlag := by
  have subtracts :
      passLines numerics core
          [.blank, .comment title, .code (.load left),
            .code (.subtractCell right)] =
        some { core with
          registers := [numerics.combine .subtract first second] } := by
    simp [Line.code, passLines, effect, execute, push, empty, leftHolds,
      rightHolds, room.1]
  obtain ⟨tested, tests, registers, memory, control, carry, zero⟩ :=
    passLines_flagsOfTop numerics
      (show
        { core with
          registers := [numerics.combine .subtract first second] }.registers =
            [numerics.combine .subtract first second] from rfl)
  exact ⟨tested, passLines_append_of_some subtracts tests, registers, memory,
    control, carry, zero⟩

/--
Up to its jump a comparison tests the difference and puts zero on the stack.
-/
theorem passLines_comparisonHead (title : String) :
    ∃ after,
      passLines numerics core
          ([Line.blank, .comment title, .code (.load left),
            .code (.subtractCell right)] ++
            flagsOfTop ++ [.code .discard, .code .loadZero]) =
        some after ∧
      after.registers = [numerics.ofRat 0] ∧ after.memory = core.memory ∧
      after.control = core.control ∧
      after.flags.carry =
        (numerics.sign (numerics.combine .subtract first second)).carry ∧
      after.flags.zero =
        (numerics.sign (numerics.combine .subtract first second)).zeroFlag := by
  obtain ⟨tested, tests, registers, memory, control, carry, zero⟩ :=
    passLines_comparisonTest room empty leftHolds rightHolds title
  have replaces :
      passLines numerics tested [.code .discard, .code .loadZero] =
        some { tested with registers := [numerics.ofRat 0] } := by
    simp [Line.code, passLines, effect, execute, push, registers, room.1]
  exact ⟨_, passLines_append_of_some tests replaces, rfl, memory, control,
    carry, zero⟩

include leftOld rightOld

theorem leaves_moduloCode (mode : QuotientRounding) :
    ∃ after,
      passLines numerics core
          (moduloCode mode left right
            (.temporary (counters.cells + 1)) (.slot (counters.slots + 1))
            (.temporary (counters.cells + 2)) (.temporary (counters.cells + 3))
            (.temporary (counters.cells + 4))) =
        some after ∧
      Leaves counters (.temporary (counters.cells + 4))
        (numerics.combine .subtract first
          (numerics.combine .multiply
            (numerics.ofInteger
              (numerics.toInteger (quotientRounding core.control mode)
                (numerics.combine .divide first second)))
            second))
        core after := by
  let whole :=
    numerics.ofInteger
      (numerics.toInteger (quotientRounding core.control mode)
        (numerics.combine .divide first second))
  obtain ⟨converted, converts, quotient⟩ :=
    leaves_quotient room empty leftHolds rightHolds mode
  have multiplies :=
    passLines_combineCode room quotient.empty quotient.holds
      ((quotient.kept right rightOld.1 rightOld.2).trans rightHolds) .multiply
      (.temporary (counters.cells + 3))
  have product :=
    quotient.trans
      (leaves_put quotient.empty counters
        (show counters.cells < counters.cells + 3 by omega)
        (numerics.combine .multiply whole second))
  have subtracts :=
    passLines_differenceCode room.1 product.empty
      ((product.kept left leftOld.1 leftOld.2).trans leftHolds) product.holds
      (.temporary (counters.cells + 4)) "mod = left - product"
  have difference :=
    product.trans
      (leaves_put product.empty counters
        (show counters.cells < counters.cells + 4 by omega)
        (numerics.combine .subtract first
          (numerics.combine .multiply whole second)))
  exact ⟨_,
    passLines_append_of_some (passLines_append_of_some converts multiplies)
      subtracts, difference⟩

end Operations

theorem isStraight_moduloCode
    (mode : QuotientRounding)
    {left right quotient slot whole product result : Cell} :
    (moduloCode mode left right quotient slot whole product result).all
      isStraight = true := by
  cases mode <;> rfl

theorem leaves_zeroOperand
    {core : Core Value}
    (room : numerics.hasRoom 0 = true)
    (empty : core.registers = [])
    (reason : String)
    (counters : Counters) :
    ∃ after,
      passLines numerics core (zeroOperand reason counters).code = some after ∧
      Leaves counters (zeroOperand reason counters).cell (numerics.ofRat 0) core
        after := by
  refine ⟨_, ?_, leaves_put empty counters (Nat.lt_succ_self _) _⟩
  rcases core with ⟨registers, memory, control, status, accumulator, flags⟩
  obtain rfl : registers = [] := empty
  simp [zeroOperand, Line.code, passLines, effect, execute, push,
    Core.put, room]

/-- A cell is copied to a fresh temporary. -/
theorem leaves_copy
    {core : Core Value}
    {source : Cell}
    {value : Value}
    (room : numerics.hasRoom 0 = true)
    (empty : core.registers = [])
    (holds : core.memory source.name = .real value)
    (title : String)
    (counters : Counters) :
    ∃ after,
      passLines numerics core
          [.blank, .comment title, .code (.load source),
            .code (.store (.temporary (counters.cells + 1)))] =
        some after ∧
      Leaves counters (.temporary (counters.cells + 1)) value core after := by
  refine ⟨_, ?_, leaves_put empty counters (Nat.lt_succ_self _) _⟩
  rcases core with ⟨registers, memory, control, status, accumulator, flags⟩
  obtain rfl : registers = [] := empty
  simp only at holds
  simp [Line.code, passLines, effect, execute, push, Core.put, holds, room]

/-- The code of a comparison leaves one or zero, whichever way its jump goes. -/
theorem leaves_comparisonCode
    {code : List Line}
    {core : Core Value}
    {counters : Counters}
    {left right : Cell}
    {position : Nat}
    {first second : Value}
    (unique : (labels code).Nodup)
    (room : numerics.hasRoom 0 = true ∧ numerics.hasRoom 1 = true)
    (empty : core.registers = [])
    (leftHolds : core.memory left.name = .real first)
    (rightHolds : core.memory right.name = .real second)
    (relation : Relation)
    (number : Nat)
    (placed :
      Placed code position
        (comparisonCode .boolean relation left right
          (.temporary (counters.cells + 1)) number)) :
    ∃ after,
      Reaches numerics code ⟨position, core⟩
        ⟨position +
          (comparisonCode .boolean relation left right
            (.temporary (counters.cells + 1)) number).length, after⟩ ∧
      Leaves counters (.temporary (counters.cells + 1))
        (if Flags.satisfy
          (.ofSign (numerics.sign (numerics.combine .subtract first second)))
            (failsUnsigned relation) then
          numerics.ofRat 0
        else
          numerics.ofRat 1)
        core after := by
  let head : List Line :=
    [.blank, .comment ("--- Comparison " ++ relation.sign ++ " ---"),
      .code (.load left), .code (.subtractCell right)] ++
      flagsOfTop ++ [.code .discard, .code .loadZero]
  let middle : List Line :=
    [.label ⟨.comparisonHolds, number⟩, .code .discard, .code .loadOne]
  let tail : List Line :=
    [.label ⟨.endOfComparison, number⟩,
      .code (.store (.temporary (counters.cells + 1))), .blank]
  have pieces :
      Placed code position
        (head ++
          (.code (.jump (failsUnsigned relation) ⟨.endOfComparison, number⟩) ::
          (middle ++ tail))) :=
    placed
  obtain ⟨headPlaced, jumpPlaced⟩ := pieces.split
  obtain ⟨middlePlaced, tailPlaced⟩ := jumpPlaced.tail.split
  obtain ⟨tested, passes, registers, memory, control, carry, zero⟩ :=
    passLines_comparisonHead room empty leftHolds rightHolds
      ("--- Comparison " ++ relation.sign ++ " ---")
  have before := reaches_passLines headPlaced rfl passes
  -- Both ways lead to the last label, with the result alone on the stack.
  have finish :
      ∀ {single : Core Value} {value : Value}, single.registers = [value] →
        Reaches numerics code
          ⟨position + head.length + 1 + middle.length, single⟩
          ⟨position + head.length + 1 + middle.length + tail.length,
            { single with registers := [] }.put
                (.temporary (counters.cells + 1))
              (.real value)⟩ := by
    intro single value holdsOne
    refine reaches_passLines tailPlaced rfl ?_
    simp [tail, Line.code, passLines, effect, execute, holdsOne]
  have stored :
      ∀ (value : Value) {single : Core Value},
        single.memory = core.memory → single.control = core.control →
          Leaves counters (.temporary (counters.cells + 1)) value core
            ({ single with registers := [] }.put
              (.temporary (counters.cells + 1)) (.real value)) := by
    intro value single sameMemory sameControl
    exact (leaves_put rfl counters (Nat.lt_succ_self _) value).of_same
      sameMemory sameControl
  have sameCondition := satisfy_failsUnsigned carry zero relation
  cases taken : tested.flags.satisfy (failsUnsigned relation) with
  | true =>
      rw [taken] at sameCondition
      rw [← sameCondition, if_pos rfl]
      have leaps :=
        before.trans (.of_step (step_of_taken jumpPlaced.head rfl taken
          (labelPosition?_eq_some unique tailPlaced.head)))
      exact ⟨_, leaps.trans (finish registers), stored _ memory control⟩
  | false =>
      rw [taken] at sameCondition
      rw [← sameCondition, if_neg Bool.false_ne_true]
      have goesOn :=
        before.trans (.of_step (step_of_not_taken jumpPlaced.head rfl taken))
      have replaces :
          passLines numerics tested middle =
            some { tested with registers := [numerics.ofRat 1] } := by
        simp [middle, Line.code, passLines, effect, execute, push,
          registers, room.1]
      have through := reaches_passLines middlePlaced rfl replaces
      exact ⟨_, (goesOn.trans through).trans (finish rfl),
        stored _ memory control⟩

/--
What code needs to find: the stack empty, and all variables and its
literals in memory.
-/
structure Prepared
    (numerics : Numerics Value)
    (options : Options)
    (rounding : Rounding)
    (cells : String → Value)
    (data : List Declaration)
    (core : Core Value) :
    Prop where
  empty :
    core.registers = []
  rounds :
    quotientRounding core.control options.modulo = rounding
  userCells :
    core.Holds cells
  literals :
    ∀ number initial, declareLiteral number initial ∈ data →
      core.memory (Cell.literal number).name =
        .real (numerics.ofRat (Decimal.textValue initial.toList))

section Prepared

variable
    {options : Options}
    {cells : String → Value}
    {data : List Declaration}
    {core : Core Value}
    (prepared : Prepared numerics options rounding cells data core)

include prepared

theorem Prepared.of_subset
    {part : List Declaration}
    (subset : part ⊆ data) :
    Prepared numerics options rounding cells part core :=
  { prepared with
    literals :=
      fun number initial member =>
        prepared.literals number initial (subset member) }

/-- Evaluating an operand changes nothing that later code needs. -/
theorem Prepared.after
    {counters : Counters}
    {cell : Cell}
    {value : Value}
    {next : Core Value}
    (leaves : Leaves counters cell value core next) :
    Prepared numerics options rounding cells data next where
  empty := leaves.empty
  rounds := by
    rw [leaves.control, prepared.rounds]
  userCells := by
    intro name free
    have kept := leaves.kept (.variable name) free (fun fresh => fresh)
    exact kept.trans (prepared.userCells name free)
  literals := by
    intro number initial member
    rw [leaves.kept (.literal number) (Cell.isProper_literal number)
      (fun fresh => fresh)]
    exact prepared.literals number initial member

end Prepared

/-- The cell of an expression is a proper one, and no longer fresh behind it. -/
theorem cell_old
    (options : Options)
    (value : Expr)
    (counters : Counters) :
    (expression options value counters).cell.IsProper ∧
      ¬ Fresh (expression options value counters).next
        (expression options value counters).cell := by
  cases value with
  | literal lexeme =>
      exact ⟨trivial, Nat.not_lt.mpr (Nat.le_succ _)⟩
  | _ =>
      exact ⟨trivial, Nat.lt_irrefl _⟩

/-- What is fresh behind an expression was so in front of it. -/
theorem Fresh.of_next
    {options : Options}
    {value : Expr}
    {counters : Counters}
    {cell : Cell}
    (fresh : Fresh (expression options value counters).next cell) :
    Fresh counters cell := by
  have allotted := allotted_expression options value counters
  cases cell with
  | temporary number =>
      exact Nat.lt_of_le_of_lt allotted.cells.1 fresh
  | slot number =>
      exact Nat.lt_of_le_of_lt allotted.slots.1 fresh
  | _ =>
      exact fresh

/--
What code behind an expression leaves is left with respect to the
expression's own start.
-/
theorem Leaves.of_next
    {options : Options}
    {value : Expr}
    {counters : Counters}
    {cell : Cell}
    {result : Value}
    {before after : Core Value}
    (leaves :
      Leaves (expression options value counters).next cell result before
        after) :
    Leaves counters cell result before after :=
  { leaves with
    kept := fun other proper notFresh =>
      leaves.kept other proper fun fresh => notFresh fresh.of_next }

/-- Both operands of an operation are old when its own code starts. -/
theorem operands_old
    (options : Options)
    (left right : Expr)
    (counters : Counters) :
    ((expression options left counters).cell.IsProper ∧
        ¬ Fresh
          (expression options right
            (expression options left counters).next).next
          (expression options left counters).cell) ∧
      (expression options right
        (expression options left counters).next).cell.IsProper ∧
        ¬ Fresh
          (expression options right
            (expression options left counters).next).next
          (expression options right
            (expression options left counters).next).cell := by
  have leftOld := cell_old options left counters
  exact ⟨⟨leftOld.1, fun fresh => leftOld.2 fresh.of_next⟩,
    cell_old options right _⟩

end Coprocessor.Compile
