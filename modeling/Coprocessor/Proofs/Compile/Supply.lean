import Coprocessor.Proofs.Assembly.Cells
import Coprocessor.Proofs.Compile.Labels

namespace Coprocessor.Compile

open Assembly

/-!
# Supply of cells

The temporary of an expression is known to be written behind its code, and what
was known in front of the code still is. So the code of an expression or a
statement takes no temporary and no slot but those that it has written, in the
order of its lines; and the only jumps over other lines lead within comparisons,
over lines that write nothing.
-/

/--
Behind the code of an expression its temporary is known, and all
that was known before.
-/
structure Supplies
    (cells : List Cell)
    (operand : Operand) :
    Prop where
  supplied : Supplied cells operand.code
  kept : cells ⊆ supplyAfter cells operand.code
  known : operand.cell ∈ supplyAfter cells operand.code

/--
The code of an operation may take both operands, since neither is forgotten.
-/
theorem Supplies.operation
    {cells : List Cell}
    {left right result : Operand}
    {own : List Line}
    (front : List Line)
    (leftSupplies : Supplies cells left)
    (rightSupplies : Supplies (supplyAfter cells left.code) right)
    (shape : result.code = front ++ left.code ++ right.code ++ own)
    (frontSupplied : Supplied cells front)
    (frontNeutral : supplyAfter cells front = cells)
    (ownSupplies :
      ∀ known : List Cell, left.cell ∈ known → right.cell ∈ known →
        Supplied known own ∧ known ⊆ supplyAfter known own ∧
          result.cell ∈ supplyAfter known own) :
    Supplies cells result := by
  obtain ⟨supplied, kept, known⟩ :=
    ownSupplies _ (rightSupplies.kept leftSupplies.known) rightSupplies.known
  have behindOperands :
      supplyAfter cells (front ++ left.code ++ right.code) =
        supplyAfter (supplyAfter cells left.code) right.code := by
    rw [supplyAfter_append, supplyAfter_append, frontNeutral]
  refine ⟨?_, ?_, ?_⟩
  · simp only [shape, supplied_append, behindOperands, supplyAfter_append,
      frontNeutral]
    exact ⟨⟨⟨frontSupplied, leftSupplies.supplied⟩, rightSupplies.supplied⟩,
      supplied⟩
  · rw [shape, supplyAfter_append, behindOperands]
    exact List.Subset.trans
      (List.Subset.trans leftSupplies.kept rightSupplies.kept) kept
  · rw [shape, supplyAfter_append, behindOperands]
    exact known

theorem supplies_zeroOperand
    (cells : List Cell)
    (reason : String)
    (counters : Counters) :
    Supplies cells (zeroOperand reason counters) := by
  refine ⟨?_, List.subset_cons_self _ _, List.mem_cons_self⟩
  simp [zeroOperand, Supplied, Line.IsSupplied, Line.read?, Line.instr?,
    Line.code, Instr.read?]

theorem supplies_literalOperand
    (cells : List Cell)
    (form : LiteralForm)
    (lexeme : String)
    (counters : Counters) :
    Supplies cells (literalOperand form lexeme counters) := by
  refine ⟨?_, List.subset_cons_self _ _, List.mem_cons_self⟩
  simp [literalOperand, Supplied, Line.IsSupplied, Line.read?, Line.instr?,
    Line.code, Instr.read?, Cell.IsFilled]

theorem supplies_variableOperand
    (cells : List Cell)
    (name : String)
    (counters : Counters) :
    Supplies cells (variableOperand name counters) := by
  refine ⟨?_, List.subset_cons_self _ _, List.mem_cons_self⟩
  simp [variableOperand, Supplied, Line.IsSupplied, Line.read?, Line.instr?,
    Line.code, Instr.read?, Cell.IsFilled]

section Operands

variable
    {cells : List Cell}
    {left right : Operand}
    (leftSupplies : Supplies cells left)
    (rightSupplies : Supplies (supplyAfter cells left.code) right)

include leftSupplies rightSupplies

theorem supplies_arithmeticOperand (operation : Arithmetic) :
    Supplies cells (arithmeticOperand operation left right) := by
  refine leftSupplies.operation [] rightSupplies rfl trivial rfl ?_
  intro known leftKnown rightKnown
  refine ⟨?_, List.subset_cons_self _ _, List.mem_cons_self⟩
  simp [arithmeticCode, combineCode, Supplied, Line.IsSupplied, Line.read?,
    Line.supply, Line.instr?, Line.code, Instr.read?, Line.clears,
    Line.written?, Instr.written?, leftKnown, rightKnown]

theorem supplies_moduloOperand (rounding : QuotientRounding) :
    Supplies cells (moduloOperand rounding left right) := by
  refine leftSupplies.operation
    [.blank, .comment "--- Modulo (left % right) ---"]
    rightSupplies rfl ?_ rfl ?_
  · simp [Supplied, Line.IsSupplied, Line.read?, Line.instr?]
  · intro known leftKnown rightKnown
    cases rounding <;>
      simp [moduloOperand, moduloCode, combineCode, roundCode, Supplied,
        Line.IsSupplied, Line.read?, Line.supply, Line.instr?, Line.code,
        Instr.read?, Line.clears, Line.written?, Instr.written?, leftKnown,
        rightKnown, Cell.IsFilled] <;>
      grind

theorem supplies_comparisonOperand
    (mode : ComparisonResult)
    (relation : Relation) :
    Supplies cells (comparisonOperand mode relation left right) := by
  refine leftSupplies.operation [] rightSupplies rfl trivial rfl ?_
  intro known leftKnown rightKnown
  cases mode <;>
    simp [comparisonOperand, comparisonCode, flagsOfTop, Supplied,
      Line.IsSupplied, Line.read?, Line.supply, Line.instr?, Line.code,
      Instr.read?, Line.clears, Line.written?, Instr.written?, leftKnown,
      rightKnown]

end Operands

theorem supplies_expression
    (options : Options)
    (cells : List Cell)
    (value : Expr)
    (counters : Counters) :
    Supplies cells (expression options value counters) := by
  induction value generalizing cells counters with
  | absent =>
      exact supplies_zeroOperand cells _ counters
  | misplaced =>
      exact supplies_zeroOperand cells _ counters
  | literal lexeme =>
      exact supplies_literalOperand cells options.literals lexeme counters
  | «variable» name =>
      exact supplies_variableOperand cells name counters
  | arithmetic operation left right leftSupplies rightSupplies =>
      exact supplies_arithmeticOperand (leftSupplies _ _) (rightSupplies _ _)
        operation
  | modulo left right leftSupplies rightSupplies =>
      exact supplies_moduloOperand (leftSupplies _ _) (rightSupplies _ _)
        options.modulo
  | comparison relation left right leftSupplies rightSupplies =>
      exact supplies_comparisonOperand (leftSupplies _ _) (rightSupplies _ _)
        options.comparison relation

/-- A statement takes nothing but what it writes itself. -/
theorem supplied_statement
    (options : Options)
    (cells : List Cell)
    (body : Stmt)
    (counters : Counters) :
    Supplied cells (statement options body counters).code := by
  have inExpression := supplies_expression options
  have labelsSupplied :
      ∀ (known : List Cell) (first second : Label),
        Supplied known [.label first, .label second] := by
    simp [Supplied, Line.IsSupplied, Line.read?, Line.instr?]
  have jumpSupplied :
      ∀ (known : List Cell) (target following : Label),
        Supplied known [.code (.jump .always target), .label following] := by
    simp [Supplied, Line.IsSupplied, Line.read?, Line.instr?, Line.code,
      Instr.read?]
  have testSupplied :
      ∀ {known : List Cell} {cell : Cell} (target : Label),
        cell ∈ known → Supplied known (jumpIfZero cell target) := by
    intro known cell target member
    simp [jumpIfZero, flagsOfTop, Supplied, Line.IsSupplied, Line.read?,
      Line.instr?, Line.code, Instr.read?, member]
  induction body generalizing cells counters with
  | skip =>
      trivial
  | sequence first second firstSupplied secondSupplied =>
      simp only [statement, supplied_append]
      exact ⟨firstSupplied _ _, secondSupplied _ _⟩
  | conditional condition body bodySupplied =>
      have test := inExpression cells condition counters
      simp only [statement, conditionalHead, supplied_append]
      refine ⟨⟨⟨test.supplied, ⟨?_, testSupplied _ test.known⟩⟩,
        bodySupplied _ _⟩, labelsSupplied _ _ _⟩
      simp [Supplied, Line.IsSupplied, Line.read?, Line.instr?]
  | choice condition onTrue onFalse trueSupplied falseSupplied =>
      have test := inExpression cells condition counters
      simp only [statement, conditionalHead, supplied_append]
      refine ⟨⟨⟨⟨⟨test.supplied, ⟨?_, testSupplied _ test.known⟩⟩,
        trueSupplied _ _⟩,
        jumpSupplied _ _ _⟩, falseSupplied _ _⟩, ?_⟩
      · simp [Supplied, Line.IsSupplied, Line.read?, Line.instr?]
      · simp [Supplied, Line.IsSupplied, Line.read?, Line.instr?]
  | loop condition body bodySupplied =>
      have test :=
        inExpression (supplyAfter cells (loopHead (counters.labels + 1)))
          condition counters.addLabel
      simp only [statement, supplied_append]
      refine ⟨⟨⟨⟨?_, test.supplied⟩, testSupplied _ ?_⟩, bodySupplied _ _⟩,
        jumpSupplied _ _ _⟩
      · simp [loopHead, Supplied, Line.IsSupplied, Line.read?, Line.instr?]
      · rw [supplyAfter_append]
        exact test.known
  | assignment target value =>
      have result := inExpression cells value counters
      simp only [statement, supplied_append]
      refine ⟨⟨?_, result.supplied⟩, ?_⟩
      · simp [Supplied, Line.IsSupplied, Line.read?, Line.instr?]
      · have known : (expression options value counters).cell ∈
            supplyAfter cells ([.blank, .comment "--- Assignment ---"] ++
              (expression options value counters).code) :=
          result.known
        simp only [assignCode, Supplied, Line.IsSupplied, Line.read?,
          Line.instr?, Option.bind_some, Instr.read?, Option.mem_def,
          Option.some.injEq, reduceCtorEq, false_implies, implies_true,
          and_true]
        rintro cell rfl -
        exact known
  | evaluation value =>
      exact (inExpression cells value counters).supplied

theorem compact_comparisonCode
    (mode : ComparisonResult)
    (relation : Relation)
    (left right result : Cell)
    (number : Nat) :
    Compact (comparisonCode mode relation left right result number) := by
  have front :
      Compact ([.blank, .comment ("--- Comparison " ++ relation.sign ++ " ---"),
        .code (.load left), .code (.subtractCell right)] ++ flagsOfTop) :=
    .of_clearing (by simp [flagsOfTop, Line.control?, Line.code])
  refine (front.append ?_).append (.of_clearing (by simp [Line.control?]))
  cases mode with
  | boolean =>
      have back :
          Compact [.label ⟨.comparisonHolds, number⟩, .code .discard,
            .code .loadOne,
            .label ⟨.endOfComparison, number⟩, .code (.store result)] :=
        .of_clearing (by simp [Line.control?, Line.code])
      refine ⟨by simp [Line.control?, Line.code],
        by simp [Line.control?, Line.code], ?_, back⟩
      simp only [Line.code, Line.control?, Option.some.injEq,
        Control.jump.injEq, and_imp]
      rintro condition target - rfl -
      refine ⟨[.label ⟨.comparisonHolds, number⟩, .code .discard,
        .code .loadOne], [.code (.store result)], rfl, ?_⟩
      simp [Line.IsNeutral, Line.clears, Line.written?, Line.instr?, Line.code,
        Instr.written?]
  | alwaysZero =>
      have back :
          Compact [.label ⟨.endOfComparison, number⟩, .code .discard,
            .code .loadZero,
            .code (.store result)] :=
        .of_clearing (by simp [Line.control?, Line.code])
      refine ⟨?_, by simp [Line.control?], by simp [Line.control?, Line.code],
        ?_, back⟩
      · simp only [Line.control?, Option.some.injEq, Control.jump.injEq,
          and_imp]
        rintro condition target - rfl -
        refine ⟨[.label ⟨.comparisonHolds, number⟩, .code .loadOne,
          .code (.jump .always ⟨.endOfComparison, number⟩)],
          [.code .discard, .code .loadZero, .code (.store result)], rfl, ?_⟩
        simp [Line.IsNeutral, Line.clears, Line.written?, Line.instr?,
          Line.code, Instr.written?]
      · simp only [Line.code, Line.control?, Option.some.injEq,
          Control.jump.injEq, and_imp]
        rintro condition target - rfl -
        exact ⟨[], [.code .discard, .code .loadZero, .code (.store result)],
          rfl, by simp⟩

theorem compact_expression
    (options : Options)
    (value : Expr)
    (counters : Counters) :
    Compact (expression options value counters).code := by
  induction value generalizing counters with
  | absent | misplaced | literal lexeme | «variable» name =>
      refine .of_clearing ?_
      simp [expression, zeroOperand, literalOperand, variableOperand,
        Line.control?, Line.code]
  | arithmetic operation left right leftCompact rightCompact =>
      refine ((leftCompact _).append (rightCompact _)).append (.of_clearing ?_)
      simp [arithmeticCode, combineCode, Line.control?, Line.code]
  | modulo left right leftCompact rightCompact =>
      have title : Compact [.blank, .comment "--- Modulo (left % right) ---"] :=
        .of_clearing (by simp [Line.control?])
      refine ((title.append (leftCompact _)).append (rightCompact _)).append
        (.of_clearing ?_)
      cases options.modulo <;>
        simp [moduloCode, combineCode, roundCode, Line.control?, Line.code]
  | comparison relation left right leftCompact rightCompact =>
      exact ((leftCompact _).append (rightCompact _)).append
        (compact_comparisonCode options.comparison relation _ _ _ _)

theorem compact_statement
    (options : Options)
    (body : Stmt)
    (counters : Counters) :
    Compact (statement options body counters).code := by
  have inExpression := compact_expression options
  induction body generalizing counters with
  | skip =>
      trivial
  | sequence first second firstCompact secondCompact =>
      exact (firstCompact _).append (secondCompact _)
  | conditional condition body bodyCompact =>
      refine (((inExpression _ _).append (.of_clearing ?_)).append
        (bodyCompact _)).append (.of_clearing ?_)
      · simp [conditionalHead, jumpIfZero, flagsOfTop, Line.control?, Line.code,
          Line.clears]
      · simp [Line.control?]
  | choice condition onTrue onFalse trueCompact falseCompact =>
      refine (((((inExpression _ _).append (.of_clearing ?_)).append
        (trueCompact _)).append (.of_clearing ?_)).append
          (falseCompact _)).append
        (.of_clearing ?_)
      · simp [conditionalHead, jumpIfZero, flagsOfTop, Line.control?, Line.code,
          Line.clears]
      · simp [Line.control?, Line.code, Line.clears]
      · simp [Line.control?]
  | loop condition body bodyCompact =>
      refine ((((Compact.of_clearing ?_).append (inExpression _ _)).append
        (.of_clearing ?_)).append (bodyCompact _)).append (.of_clearing ?_)
      · simp [loopHead, Line.control?]
      · simp [jumpIfZero, flagsOfTop, Line.control?, Line.code, Line.clears]
      · simp [loopTail, Line.control?, Line.code, Line.clears]
  | assignment target value =>
      refine ((Compact.of_clearing ?_).append (inExpression _ _)).append
        (.of_clearing ?_)
      · simp [Line.control?]
      · simp [assignCode, Line.control?]
  | evaluation value =>
      exact inExpression value counters

end Coprocessor.Compile
