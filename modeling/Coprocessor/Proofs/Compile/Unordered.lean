import Coprocessor.Program.Reader
import Coprocessor.Proofs.Compile.Preservation

namespace Coprocessor

open Assembly Machine

/-!
# Comparisons with a value that is no number

Rational numbers are joined by one value that is no number, which a quotient by
zero gives and which every operation passes on. Its difference to anything is
unordered, and for an unordered difference the coprocessor raises the carry flag
as for a negative one and the zero flag as for zero. So where a side is no
number the code of a comparison finds the sides equal and the left one below,
and of the six relations only the two that ask what lies above are told rightly.
-/

/--
An arithmetic operation. A quotient by zero is no number, and what is no
number is passed on.
-/
def Arithmetic.withNaN
    (operation : Arithmetic) :
    Option ℚ → Option ℚ → Option ℚ
  | some left, some right =>
      if operation = .divide ∧ right = 0 then
        none
      else
        some (operation.exact 0 left right)
  | _, _ => none

/--
Whether a relation holds. What is no number differs from everything
and is in no order.
-/
def Relation.holdsWithNaN
    (relation : Relation) :
    Option ℚ → Option ℚ → Bool
  | some left, some right => relation.holds left right
  | _, _ => relation = .notEqual

/-- Whether the code of a comparison finds that a relation holds. -/
def Relation.foundWithNaN
    (relation : Relation) :
    Option ℚ → Option ℚ → Bool
  | some left, some right => relation.holds left right
  | _, _ => relation ∈ [.equal, .less, .lessOrEqual]

/--
What the code of a comparison finds is right for numbers, and always
for what holds above.
-/
theorem Relation.foundWithNaN_eq_iff
    (relation : Relation)
    (left right : Option ℚ) :
    relation.foundWithNaN left right = relation.holdsWithNaN left right ↔
      (left.isSome ∧ right.isSome) ∨
        relation ∈ [.greater, .greaterOrEqual] := by
  have unordered :
      decide (relation ∈ [.equal, .less, .lessOrEqual]) =
        decide (relation = .notEqual) ↔
        relation ∈ [.greater, .greaterOrEqual] := by
    cases relation <;> decide
  cases left with
  | none =>
      simpa [foundWithNaN, holdsWithNaN] using unordered
  | some left =>
      cases right with
      | none =>
          simpa [foundWithNaN, holdsWithNaN] using unordered
      | some right =>
          simp [foundWithNaN, holdsWithNaN]

/--
Arithmetic with a value that is no number; a comparison yields what
its code finds.
-/
def Meaning.withNaN (round : Option ℚ → Int) : Meaning (Option ℚ) where
  ofRat := some
  arithmetic := Arithmetic.withNaN
  modulo left right :=
    Arithmetic.withNaN .subtract left
      (Arithmetic.withNaN .multiply
        (some (round (Arithmetic.withNaN .divide left right)))
        right)
  comparison relation left right :=
    some (if relation.foundWithNaN left right then 1 else 0)
  IsTrue value := ∃ number, value = some number ∧ number ≠ 0

namespace Machine

/--
Rational numbers and what is no number, in eight registers, with a
given conversion.
-/
def Numerics.withNaN (convert : Rounding → Option ℚ → Int) :
    Numerics (Option ℚ) where
  hasRoom depth := depth < 8
  ofRat := some
  ofInteger value := some value
  combine := Arithmetic.withNaN
  toInteger := convert
  sign value := value.elim .unordered (Numerics.exact 0).sign

variable
    (convert : Rounding → Option ℚ → Int)

/-- The flags after a difference tell what the code of a comparison finds. -/
theorem satisfy_sign_withNaN
    (left right : Option ℚ)
    (relation : Relation) :
    Flags.satisfy
        (.ofSign ((Numerics.withNaN convert).sign
          ((Numerics.withNaN convert).combine .subtract left right)))
        (Compile.failsUnsigned relation) =
      !relation.foundWithNaN left right := by
  have unordered :
      Flags.satisfy (.ofSign .unordered) (Compile.failsUnsigned relation) =
        !decide (relation ∈ [.equal, .less, .lessOrEqual]) := by
    cases relation <;> rfl
  cases left with
  | none =>
      exact unordered
  | some left =>
      cases right with
      | none =>
          exact unordered
      | some right =>
          have difference :
              Arithmetic.withNaN .subtract (some left) (some right) =
                some (left - right) := by
            simp [Arithmetic.withNaN, Arithmetic.exact]
          change Flags.satisfy (.ofSign ((Numerics.withNaN convert).sign
            (Arithmetic.withNaN .subtract (some left) (some right)))) _ = _
          rw [difference]
          exact satisfy_sign_sub 0 left right relation

theorem realizes_withNaN (rounding : Rounding) :
    Compile.Realizes (.withNaN convert) rounding
      (.withNaN (convert rounding)) where
  room := ⟨rfl, rfl⟩
  ofRat _ := rfl
  arithmetic _ _ _ := rfl
  modulo _ _ := rfl
  comparison := by
    intro relation left right
    rw [satisfy_sign_withNaN]
    change _ = some (if relation.foundWithNaN left right then (1 : ℚ) else 0)
    cases relation.foundWithNaN left right <;> rfl
  truth := by
    intro value
    cases value with
    | none =>
        simp [Meaning.withNaN, Numerics.withNaN, Sign.zeroFlag]
    | some number =>
        have ordered := (realizes_exact 0).truth number
        simpa [Meaning.withNaN, Numerics.withNaN, Meaning.exact] using ordered

end Machine

namespace Compile

/--
The code of a comparison leaves its result, whatever lies on the stack below it.
-/
theorem reaches_comparisonCode
    {Value : Type}
    {numerics : Numerics Value}
    {code : List Line}
    {position : Nat}
    {core : Core Value}
    {counters : Counters}
    {left right : Cell}
    {first second : Value}
    (unique : (labels code).Nodup)
    (room :
      numerics.hasRoom core.registers.length = true ∧
        numerics.hasRoom (core.registers.length + 1) = true)
    (leftHolds : core.memory left.name = .real first)
    (rightHolds : core.memory right.name = .real second)
    (relation : Relation)
    (number : Nat)
    (placed :
      Placed code position
        (comparisonCode .boolean relation left right
          (.temporary (counters.cells + 1)) number)) :
    ∃ final,
      Reaches numerics code ⟨position, core⟩
        ⟨position +
          (comparisonCode .boolean relation left right
            (.temporary (counters.cells + 1)) number).length, final⟩ ∧
      final.registers = core.registers ∧ final.control = core.control ∧
      final.memory (Cell.temporary (counters.cells + 1)).name =
        .real
          (if Flags.satisfy
            (.ofSign (numerics.sign (numerics.combine .subtract first second)))
              (failsUnsigned relation) then
            numerics.ofRat 0
          else
            numerics.ofRat 1) := by
  apply exists_reaches_over_registers
  refine leaves_comparisonCode unique ?_ ?_ ?_ ?_ relation number placed
  exacts [room, rfl, leftHolds, rightHolds]

/--
A comparison that yields one or zero, in code that defines no label twice.
Behind the code of its operands, and whatever the two temporaries hold, the
machine comes to the end of its code with one in the temporary of the result if
the relation is found to hold and zero if not. From the first line on, the two
temporaries hold the values of the operands. What is found is what holds if and
only if both sides are numbers or the relation asks what lies above.
-/
theorem comparison_stores_found
    (options : Options)
    (isBoolean : options.comparison = .boolean)
    (relation : Relation)
    (left right : Expr)
    (counters : Counters)
    {code : List Line}
    (unique : (labels code).Nodup)
    {position : Nat}
    (placed :
      Placed code position
        (expression options (.comparison relation left right) counters).code)
    (convert : Rounding → Option ℚ → Int) :
    let first := expression options left counters
    let second := expression options right first.next
    let whole := expression options (.comparison relation left right) counters
    (∀ (core : Core (Option ℚ)) (leftValue rightValue : Option ℚ),
      core.registers.length + 2 ≤ 8 →
        core.memory first.cell.name = .real leftValue →
          core.memory second.cell.name = .real rightValue →
            ∃ final : Core (Option ℚ),
              Reaches (.withNaN convert) code
                ⟨position + (first.code ++ second.code).length, core⟩
                ⟨position + whole.code.length, final⟩ ∧
              final.registers = core.registers ∧ final.control = core.control ∧
              final.memory whole.cell.name =
                .real (some
                  (if relation.foundWithNaN leftValue rightValue then 1
                  else 0))) ∧
    (∀ (rounding : Rounding) (cells : String → Option ℚ)
      (core : Core (Option ℚ)),
      (∀ name ∈ left.names ++ right.names,
        isReserved (Symbol.storedName name) = false) →
        Prepared (.withNaN convert) options rounding cells whole.data core →
          let leftValue := left.value (.withNaN (convert rounding)) cells
          let rightValue := right.value (.withNaN (convert rounding)) cells
          ∃ final : Core (Option ℚ),
            Reaches (.withNaN convert) code ⟨position, core⟩
              ⟨position + whole.code.length, final⟩ ∧
            final.registers = [] ∧ final.control = core.control ∧
            final.memory whole.cell.name =
              .real (some
                (if relation.foundWithNaN leftValue rightValue then 1
                else 0))) ∧
    (∀ leftValue rightValue : Option ℚ,
      relation.foundWithNaN leftValue rightValue =
        relation.holdsWithNaN leftValue rightValue ↔
        (leftValue.isSome ∧ rightValue.isSome) ∨
          relation ∈ [.greater, .greaterOrEqual]) := by
  intro first second whole
  refine ⟨?_, ?_, relation.foundWithNaN_eq_iff⟩
  · intro core leftValue rightValue room leftHolds rightHolds
    have roomTwice :
        (Numerics.withNaN convert).hasRoom core.registers.length = true ∧
          (Numerics.withNaN convert).hasRoom (core.registers.length + 1) =
            true := by
      constructor
      · exact decide_eq_true (by omega)
      · exact decide_eq_true (by omega)
    -- The operands have been evaluated, so it does not matter which
    -- names they read.
    obtain ⟨-, ownPlaced⟩ := Placed.split placed
    rw [isBoolean] at ownPlaced
    obtain ⟨final, reaches, registers, control, holds⟩ :=
      reaches_comparisonCode unique roomTwice leftHolds rightHolds relation _
        ownPlaced
    rw [(realizes_withNaN convert .down).comparison] at holds
    rw [Nat.add_assoc, ← List.length_append, ← isBoolean] at reaches
    exact ⟨final, reaches, registers, control, holds⟩
  · intro rounding cells core free prepared
    have conduct :=
      conduct_stepMove unique isBoolean (realizes_withNaN convert rounding)
    have wholeFree :
        ∀ name ∈ (Expr.comparison relation left right).names,
          isReserved (Symbol.storedName name) = false :=
      free
    have leads := leads_expression conduct wholeFree placed rfl prepared
    rw [Core.over_nil] at leads
    obtain ⟨⟨_, _⟩, reaches, rfl, final, _, rfl, rfl, leaves⟩ :=
      exists_reaches_of_inevitable leads
    rw [Core.over_nil] at reaches
    exact ⟨final, reaches, leaves.empty, leaves.control, leaves.holds⟩

theorem comparison_stores_found_less :
    let code :=
      (expression {} (.comparison .less (.variable "x") (.variable "y"))
        .start).code
    let cells : String → Option ℚ :=
      fun name => if name = "x" then none else some 1
    let core : Core (Option ℚ) :=
      ⟨[], fun name => .real (cells name), 0x037F, 0, 0,
        ⟨false, false, false, false⟩⟩
    (labels code).Nodup ∧ Relation.less.holdsWithNaN none (some 1) = false ∧
      ∃ final : Core (Option ℚ),
        Reaches (.withNaN fun _ _ => 0) code ⟨0, core⟩ ⟨code.length, final⟩ ∧
          final.memory "@tmp3" = .real (some 1) := by
  intro code cells core
  have unique : (labels code).Nodup := by
    decide
  have placed : Placed code 0 code :=
    List.prefix_refl _
  have free :
      ∀ name ∈ (Expr.variable "x").names ++ (Expr.variable "y").names,
        isReserved (Symbol.storedName name) = false := by
    decide
  have prepared :
      Prepared (.withNaN fun _ _ => 0) {} .down cells
        (expression {} (.comparison .less (.variable "x") (.variable "y"))
          .start).data core :=
    { empty := rfl
      rounds := rfl
      userCells := fun _ _ => rfl
      literals := by
        intro number initial member
        simp [expression, comparisonOperand, variableOperand, declareTemporary,
          declareLiteral] at member }
  have settled :=
    comparison_stores_found {} rfl .less (.variable "x") (.variable "y") .start
      unique placed (fun _ _ => 0)
  obtain ⟨final, reaches, -, -, holds⟩ :=
    settled.2.1 .down cells core free prepared
  rw [Nat.zero_add] at reaches
  exact ⟨unique, rfl, final, reaches, holds⟩

end Compile

namespace Program

/-- A program that assigns whether a quotient by zero is one. -/
def undefinedQuotient : Program :=
  let built :=
    Store.empty.addTree
      (.node "=" (.leaf "x")
        (.node "==" (.node "/" (.leaf "0") (.leaf "0")) (.leaf "1")))
  ⟨built.1, Symbol.Table.empty.insert ((Symbol.ofName "x").withType .float),
    built.2⟩

/-- The code of `undefinedQuotient` finds that a quotient by zero is one. -/
theorem quotient_by_zero_found_equal :
    let listing := undefinedQuotient.listing {}
    let numerics := Numerics.withNaN fun _ _ => 0
    let core :=
      ⟨[], fun _ => .word 0, 0x037F, 0, 0, ⟨false, false, false, false⟩⟩
    Program.read "(program (decls (x float)) (= x (== (/ 0 0) 1)))" =
      .ok undefinedQuotient ∧
      Arithmetic.withNaN .divide (some 0) (some 0) = none ∧
      Relation.equal.holdsWithNaN none (some 1) = false ∧
      ∃ final,
        Reaches numerics listing.code
          (startOf numerics listing (fun _ => some 0) core) final ∧
          AtExit listing.code final ∧
          final.core.memory "x" = .real (some 1) := by
  intro listing numerics core
  have zero : literalValue "0" = 0 :=
    literalValue_of_whole rfl
  have one : literalValue "1" = 1 :=
    literalValue_of_whole rfl
  have comparison : Kind.ofTag "==" = .comparison .equal := by
    decide
  have division : Kind.ofTag "/" = .arithmetic .divide := by
    decide
  have firstLiteral : Kind.ofTag "0" = .literal := by
    decide
  have secondLiteral : Kind.ofTag "1" = .literal := by
    decide
  have undefined : Arithmetic.withNaN .divide (some 0) (some 0) = none := by
    simp [Arithmetic.withNaN]
  have found :
      Tree.value (.withNaN fun _ => 0) (fun _ => some 0)
          (.node "==" (.node "/" (.leaf "0") (.leaf "0")) (.leaf "1")) =
        some 1 := by
    simp only [Tree.value, Tree.leaf, comparison, division, firstLiteral,
      secondLiteral, zero, one, Meaning.withNaN, undefined]
    rfl
  have shape :
      undefinedQuotient.tree.map Node.tag =
        .node "=" (.leaf "x")
          (.node "==" (.node "/" (.leaf "0") (.leaf "0")) (.leaf "1")) := by
    decide
  have runs :
      Tree.Runs (.withNaN fun _ => 0) (undefinedQuotient.tree.map Node.tag)
        (fun _ => some 0) (Function.update (fun _ => some 0) "x" (some 1)) := by
    rw [shape, ← found]
    exact .assignment (by decide) (by decide)
  obtain ⟨final, reaches, atExit, holds⟩ :=
    undefinedQuotient.exits_of_runs {} rfl rfl
      (realizes_withNaN (fun _ _ => 0) .down) (by decide) runs core
  exact ⟨rfl, undefined, rfl, final, reaches, atExit, holds "x" (by decide)⟩

end Program

end Coprocessor
