import Coprocessor.Proofs.Assembly.Cells
import Coprocessor.Proofs.Compile.Labels
import Coprocessor.Proofs.Language.Names

namespace Coprocessor.Compile

open Assembly

/-!
# Orderly code

Where no variable has a reserved name, compiled code uses each family of cells
as it is meant to be used: temporaries and variables for real numbers, slots for
integers, and the control cells for control words.
-/

/-- The value of an expression is left in a temporary. -/
theorem cell_expression
    (options : Options)
    (value : Expr)
    (counters : Counters) :
    ∃ number, (expression options value counters).cell = .temporary number := by
  cases value <;> exact ⟨_, rfl⟩

theorem orderly_arithmeticCode
    (operation : Arithmetic)
    (left right result : Nat) :
    ∀ line ∈ arithmeticCode operation (.temporary left) (.temporary right)
      (.temporary result), line.IsOrderly := by
  simp [arithmeticCode, combineCode, Line.code]
  and_intros <;> trivial

theorem orderly_moduloCode
    (rounding : QuotientRounding)
    (left right quotient slot whole product result : Nat) :
    ∀ line ∈ moduloCode rounding (.temporary left) (.temporary right)
      (.temporary quotient) (.slot slot) (.temporary whole) (.temporary product)
      (.temporary result), line.IsOrderly := by
  cases rounding <;>
    simp [moduloCode, combineCode, roundCode, Line.code] <;>
    and_intros <;> trivial

theorem orderly_comparisonCode
    (mode : ComparisonResult)
    (relation : Relation)
    (left right result number : Nat) :
    ∀ line ∈ comparisonCode mode relation (.temporary left) (.temporary right)
      (.temporary result) number, line.IsOrderly := by
  cases mode <;>
    simp [comparisonCode, flagsOfTop, Line.code] <;>
    and_intros <;> trivial

theorem orderly_expression
    (options : Options)
    {value : Expr}
    (free : ∀ name ∈ value.names, isReserved (Symbol.storedName name) = false)
    (counters : Counters) :
    ∀ line ∈ (expression options value counters).code, line.IsOrderly := by
  induction value generalizing counters with
  | absent | misplaced | literal lexeme =>
      simp [expression, zeroOperand, literalOperand, Line.code]
      and_intros <;> trivial
  | «variable» name =>
      have nameFree := free name (List.mem_singleton_self name)
      simp [expression, variableOperand, Line.code]
      and_intros <;> trivial
  | arithmetic operation left right leftOrderly rightOrderly =>
      obtain ⟨leftFree, rightFree⟩ := List.forall_mem_append.mp free
      obtain ⟨first, leftCell⟩ := cell_expression options left counters
      obtain ⟨second, rightCell⟩ :=
        cell_expression options right (expression options left counters).next
      simp only [expression, arithmeticOperand, List.forall_mem_append,
        leftCell, rightCell]
      refine ⟨⟨leftOrderly leftFree _, rightOrderly rightFree _⟩, ?_⟩
      exact orderly_arithmeticCode operation first second _
  | modulo left right leftOrderly rightOrderly =>
      obtain ⟨leftFree, rightFree⟩ := List.forall_mem_append.mp free
      obtain ⟨first, leftCell⟩ := cell_expression options left counters
      obtain ⟨second, rightCell⟩ :=
        cell_expression options right (expression options left counters).next
      simp only [expression, moduloOperand, List.forall_mem_append, leftCell,
        rightCell]
      refine ⟨⟨⟨?_, leftOrderly leftFree _⟩, rightOrderly rightFree _⟩, ?_⟩
      · simp
      · exact orderly_moduloCode options.modulo first second _ _ _ _ _
  | comparison relation left right leftOrderly rightOrderly =>
      obtain ⟨leftFree, rightFree⟩ := List.forall_mem_append.mp free
      obtain ⟨first, leftCell⟩ := cell_expression options left counters
      obtain ⟨second, rightCell⟩ :=
        cell_expression options right (expression options left counters).next
      simp only [expression, comparisonOperand, List.forall_mem_append,
        leftCell, rightCell]
      refine ⟨⟨leftOrderly leftFree _, rightOrderly rightFree _⟩, ?_⟩
      exact orderly_comparisonCode options.comparison relation first second _ _

theorem orderly_statement
    (options : Options)
    {body : Stmt}
    (free : ∀ name ∈ body.names, isReserved (Symbol.storedName name) = false)
    (counters : Counters) :
    ∀ line ∈ (statement options body counters).code, line.IsOrderly := by
  have testOrderly :
      ∀ number target, ∀ line ∈ jumpIfZero (.temporary number) target,
        line.IsOrderly := by
    intro number target
    simp [jumpIfZero, flagsOfTop, Line.code]
    and_intros <;> trivial
  induction body generalizing counters with
  | skip =>
      simp [statement]
  | sequence first second firstOrderly secondOrderly =>
      obtain ⟨firstFree, secondFree⟩ := List.forall_mem_append.mp free
      exact List.forall_mem_append.mpr
        ⟨firstOrderly firstFree _, secondOrderly secondFree _⟩
  | conditional condition body bodyOrderly =>
      obtain ⟨conditionFree, bodyFree⟩ := List.forall_mem_append.mp free
      obtain ⟨number, testCell⟩ := cell_expression options condition counters
      simp only [statement, conditionalHead, List.forall_mem_append, testCell]
      refine ⟨⟨⟨orderly_expression options conditionFree _, ?_,
        testOrderly _ _⟩,
        bodyOrderly bodyFree _⟩, ?_⟩ <;>
        simp
  | choice condition onTrue onFalse trueOrderly falseOrderly =>
      obtain ⟨conditionFree, branchesFree⟩ := List.forall_mem_append.mp free
      obtain ⟨trueFree, falseFree⟩ := List.forall_mem_append.mp branchesFree
      obtain ⟨number, testCell⟩ := cell_expression options condition counters
      simp only [statement, conditionalHead, List.forall_mem_append, testCell]
      refine ⟨⟨⟨⟨⟨orderly_expression options conditionFree _, ?_,
        testOrderly _ _⟩,
        trueOrderly trueFree _⟩, ?_⟩, falseOrderly falseFree _⟩, ?_⟩ <;>
        simp [Line.code]
  | loop condition body bodyOrderly =>
      obtain ⟨conditionFree, bodyFree⟩ := List.forall_mem_append.mp free
      obtain ⟨number, testCell⟩ :=
        cell_expression options condition counters.addLabel
      simp only [statement, List.forall_mem_append, testCell]
      refine ⟨⟨⟨⟨?_, orderly_expression options conditionFree _⟩,
        testOrderly _ _⟩,
        bodyOrderly bodyFree _⟩, ?_⟩ <;>
        simp [loopHead, loopTail, Line.code]
  | assignment target value =>
      obtain ⟨targetFree, valueFree⟩ := List.forall_mem_cons.mp free
      obtain ⟨number, valueCell⟩ := cell_expression options value counters
      simp only [statement, List.forall_mem_append, valueCell]
      refine ⟨⟨?_, orderly_expression options valueFree _⟩, ?_⟩
      · simp
      · simp only [assignCode, List.forall_mem_cons, Line.isOrderly_instr]
        exact ⟨trivial, targetFree, List.forall_mem_nil _⟩
  | evaluation value =>
      exact orderly_expression options free counters

end Coprocessor.Compile
