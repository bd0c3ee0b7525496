import Coprocessor.Program.Reader
import Coprocessor.Proofs.Compile.Preservation

namespace Coprocessor

open Assembly Machine

/-!
# Quotients in slots of 32 bits

The quotient of a modulo goes through an integer slot. A slot takes 32 bits, and
a rounded quotient that does not fit leaves the least number of all in it. So a
modulo takes the greatest whole multiple of the divisor away if the rounded
quotient fits, and in no other case.
-/

namespace Machine

/-- The integers that fit in a slot. -/
def FitsSlot (value : Int) : Prop :=
  -2 ^ 31 ≤ value ∧ value < 2 ^ 31

instance (value : Int) : Decidable (FitsSlot value) :=
  inferInstanceAs (Decidable (_ ∧ _))

/-- What a slot holds after an integer has been stored in it. -/
def inSlot (value : Int) : Int :=
  if FitsSlot value then value else -2 ^ 31

theorem inSlot_eq_self_iff
    {value : Int} :
    inSlot value = value ↔ FitsSlot value := by
  rw [inSlot]
  split
  case isTrue fits =>
      exact iff_of_true rfl fits
  case isFalse tooLarge =>
      refine iff_of_false ?_ tooLarge
      intro same
      exact tooLarge (by rw [← same]; decide)

/-- Exact rational numbers in eight registers, with integers stored in slots. -/
def Numerics.narrow (byZero : ℚ) : Numerics ℚ :=
  { Numerics.exact byZero with
    toInteger :=
      fun rounding value =>
        inSlot ((Numerics.exact byZero).toInteger rounding value) }

end Machine

/-- Exact arithmetic in which the quotient of a modulo goes through a slot. -/
def Meaning.narrow (byZero : ℚ) : Meaning ℚ :=
  { Meaning.exact byZero with
    modulo := fun left right =>
      left - inSlot ⌊Arithmetic.exact byZero .divide left right⌋ * right }

theorem realizes_narrow (byZero : ℚ) :
    Compile.Realizes (.narrow byZero) .down (.narrow byZero) :=
  { realizes_exact byZero with
    modulo := fun _ _ => rfl }

namespace Compile

/-- What a modulo leaves is right if and only if its rounded quotient fits. -/
theorem sub_inSlot_eq_iff
    {dividend divisor : ℚ}
    (nonzero : divisor ≠ 0) :
    dividend - inSlot ⌊dividend / divisor⌋ * divisor =
        dividend - ⌊dividend / divisor⌋ * divisor ↔
      FitsSlot ⌊dividend / divisor⌋ := by
  rw [sub_right_inj, mul_left_inj' nonzero, Int.cast_inj, inSlot_eq_self_iff]

/--
What is left below a positive divisor tells which multiple of it has
been taken away.
-/
theorem sub_mul_mem_iff
    {divisor : ℚ}
    (positive : 0 < divisor)
    (dividend : ℚ)
    (multiple : Int) :
    0 ≤ dividend - multiple * divisor ∧
      dividend - multiple * divisor < divisor ↔
      multiple = ⌊dividend / divisor⌋ := by
  rw [eq_comm, Int.floor_eq_iff, le_div_iff₀ positive, div_lt_iff₀ positive,
    add_mul, one_mul, sub_nonneg, sub_lt_iff_lt_add']

/--
The code of a modulo leaves its result, whatever lies on the stack below it.
-/
theorem reaches_moduloCode
    {Value : Type}
    {numerics : Numerics Value}
    {code : List Line}
    {position : Nat}
    {core : Core Value}
    {counters : Counters}
    {left right : Cell}
    {first second : Value}
    (room :
      numerics.hasRoom core.registers.length = true ∧
        numerics.hasRoom (core.registers.length + 1) = true)
    (leftOld : left.IsProper ∧ ¬ Fresh counters left)
    (rightOld : right.IsProper ∧ ¬ Fresh counters right)
    (leftHolds : core.memory left.name = .real first)
    (rightHolds : core.memory right.name = .real second)
    (mode : QuotientRounding)
    (placed :
      Placed code position
        (moduloCode mode left right
          (.temporary (counters.cells + 1)) (.slot (counters.slots + 1))
          (.temporary (counters.cells + 2)) (.temporary (counters.cells + 3))
          (.temporary (counters.cells + 4)))) :
    ∃ final,
      Reaches numerics code ⟨position, core⟩
        ⟨position +
          (moduloCode mode left right
            (.temporary (counters.cells + 1)) (.slot (counters.slots + 1))
            (.temporary (counters.cells + 2)) (.temporary (counters.cells + 3))
            (.temporary (counters.cells + 4))).length, final⟩ ∧
      final.registers = core.registers ∧ final.control = core.control ∧
      final.memory (Cell.temporary (counters.cells + 4)).name =
        .real (numerics.combine .subtract first
          (numerics.combine .multiply
            (numerics.ofInteger
              (numerics.toInteger (quotientRounding core.control mode)
                (numerics.combine .divide first second)))
            second)) := by
  apply exists_reaches_over_registers
  refine (leaves_moduloCode ?_ ?_ leftOld rightOld ?_ ?_ mode).imp
    fun _ =>
      And.imp_left (reaches_passLines placed (isStraight_moduloCode mode))
  exacts [room, rfl, leftHolds, rightHolds]

/--
A modulo that rounds its quotient down, behind the code of its operands: the
machine comes to the end of its code with the register stack and the control
word as they were, and the result has the rounded quotient as it is found in the
slot. It is the dividend without the greatest whole multiple of the divisor if
and only if the rounded quotient fits in a slot, and for a positive divisor only
then does it lie between zero and the divisor.
-/
theorem modulo_through_slot
    (options : Options)
    (isFloor : options.modulo = .floor)
    (left right : Expr)
    (counters : Counters)
    {code : List Line}
    {position : Nat}
    (placed :
      Placed code position
        (expression options (.modulo left right) counters).code)
    (byZero : ℚ)
    {core : Core ℚ}
    {dividend divisor : ℚ}
    (room : core.registers.length + 2 ≤ 8)
    (leftHolds :
      core.memory (expression options left counters).cell.name = .real dividend)
    (rightHolds :
      core.memory
        (expression options right
          (expression options left counters).next).cell.name =
        .real divisor)
    (nonzero : divisor ≠ 0) :
    let first := expression options left counters
    let second := expression options right first.next
    let operands : List Line :=
      [.blank, .comment "--- Modulo (left % right) ---"] ++ first.code ++
        second.code
    let whole := expression options (.modulo left right) counters
    let quotient := ⌊dividend / divisor⌋
    let result := dividend - inSlot quotient * divisor
    ∃ final : Core ℚ,
      Reaches (.narrow byZero) code ⟨position + operands.length, core⟩
        ⟨position + whole.code.length, final⟩ ∧
      final.registers = core.registers ∧ final.control = core.control ∧
      final.memory whole.cell.name = .real result ∧
      (result = dividend - quotient * divisor ↔ FitsSlot quotient) ∧
      (0 < divisor → (0 ≤ result ∧ result < divisor ↔ FitsSlot quotient)) := by
  intro first second operands whole quotient result
  obtain ⟨leftOld, rightOld⟩ := operands_old options left right counters
  have roomTwice :
      (Numerics.narrow byZero).hasRoom core.registers.length = true ∧
        (Numerics.narrow byZero).hasRoom (core.registers.length + 1) =
          true := by
    constructor
    · exact decide_eq_true (by omega)
    · exact decide_eq_true (by omega)
  obtain ⟨-, ownPlaced⟩ := Placed.split placed
  obtain ⟨final, reaches, registers, control, holds⟩ :=
    reaches_moduloCode roomTwice leftOld rightOld leftHolds rightHolds
      options.modulo ownPlaced
  have divides :
      Arithmetic.exact byZero .divide dividend divisor = dividend / divisor :=
    if_neg nonzero
  have value : final.memory whole.cell.name = .real result := by
    rw [isFloor] at holds
    change _ = Content.real (dividend -
      inSlot ⌊Arithmetic.exact byZero .divide dividend divisor⌋ *
        divisor) at holds
    rw [divides] at holds
    exact holds
  rw [Nat.add_assoc, ← List.length_append] at reaches
  refine ⟨final, reaches, registers, control, value,
    sub_inSlot_eq_iff nonzero, ?_⟩
  intro positive
  rw [sub_mul_mem_iff positive, inSlot_eq_self_iff]

theorem modulo_through_slot_negative :
    let code :=
      (expression {} (.modulo (.literal "-7") (.literal "2")) .start).code
    let core : Core ℚ :=
      ⟨[], fun name => .real (if name = "@tmp1" then -7 else 2), 0x037F, 0, 0,
        ⟨false, false, false, false⟩⟩
    FitsSlot ⌊(-7 : ℚ) / 2⌋ ∧
      ∃ final : Core ℚ,
        Reaches (.narrow 0) code ⟨10, core⟩ ⟨code.length, final⟩ ∧
          final.memory "@tmp8" = .real 1 := by
  intro code core
  have quotient : ⌊(-7 : ℚ) / 2⌋ = -4 := by
    norm_num
  have fits : FitsSlot ⌊(-7 : ℚ) / 2⌋ := by
    rw [quotient]
    decide
  have placed : Placed code 0 code :=
    List.prefix_refl _
  have leftHolds : core.memory "@tmp1" = .real (-7) :=
    rfl
  have rightHolds : core.memory "@tmp3" = .real 2 :=
    rfl
  obtain ⟨final, reaches, -, -, holds, right, -⟩ :=
    modulo_through_slot {} rfl (.literal "-7") (.literal "2") .start placed 0
      (by decide) leftHolds rightHolds two_ne_zero
  rw [right.mpr fits, quotient] at holds
  norm_num at holds
  rw [Nat.zero_add] at reaches
  exact ⟨fits, final, reaches, holds⟩

end Compile

namespace Program

/--
A program that assigns a remainder modulo one, of a number that has
no room in a slot.
-/
def wholeRemainder : Program :=
  let built :=
    Store.empty.addTree
      (.node "=" (.leaf "x") (.node "%" (.leaf "2147483648") (.leaf "1")))
  ⟨built.1, Symbol.Table.empty.insert ((Symbol.ofName "x").withType .float),
    built.2⟩

/--
The code of `wholeRemainder` leaves more than the dividend, where
nothing should be left.
-/
theorem modulo_beyond_slot :
    let listing := wholeRemainder.listing {}
    let core :=
      ⟨[], fun _ => .word 0, 0x037F, 0, 0, ⟨false, false, false, false⟩⟩
    Program.read "(program (decls (x float)) (= x (% 2147483648 1)))" =
      .ok wholeRemainder ∧
      (2147483648 : ℚ) - ⌊(2147483648 : ℚ) / 1⌋ * 1 = 0 ∧
      ∃ final,
        Reaches (.narrow 0) listing.code
          (startOf (.narrow 0) listing (fun _ => 0) core) final ∧
          AtExit listing.code final ∧
          final.core.memory "x" = .real 4294967296 := by
  intro listing core
  have dividend : literalValue "2147483648" = 2147483648 :=
    literalValue_of_whole rfl
  have divisor : literalValue "1" = 1 :=
    literalValue_of_whole rfl
  have modulo : Kind.ofTag "%" = .modulo := by
    decide
  have firstLiteral : Kind.ofTag "2147483648" = .literal := by
    decide
  have secondLiteral : Kind.ofTag "1" = .literal := by
    decide
  have remainder :
      Tree.value (.narrow 0) (fun _ => 0)
        (.node "%" (.leaf "2147483648") (.leaf "1")) =
        4294967296 := by
    simp only [Tree.value, Tree.leaf, modulo, firstLiteral, secondLiteral,
      dividend, divisor, Meaning.narrow, Meaning.exact, Arithmetic.exact]
    norm_num [inSlot, FitsSlot]
  have shape :
      wholeRemainder.tree.map Node.tag =
        .node "=" (.leaf "x") (.node "%" (.leaf "2147483648") (.leaf "1")) := by
    decide
  have runs :
      Tree.Runs (.narrow 0) (wholeRemainder.tree.map Node.tag) (fun _ => 0)
        (Function.update (fun _ => 0) "x" 4294967296) := by
    rw [shape, ← remainder]
    exact .assignment (by decide) (by decide)
  obtain ⟨final, reaches, atExit, holds⟩ :=
    wholeRemainder.exits_of_runs {} rfl rfl (realizes_narrow 0) (by decide)
      runs core
  exact ⟨rfl, by norm_num, final, reaches, atExit, holds "x" (by decide)⟩

end Program

end Coprocessor
