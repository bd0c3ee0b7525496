import Coprocessor.Proofs.Assembly.Surplus
import Coprocessor.Proofs.Compile.Depth

namespace Coprocessor

open Assembly

/-!
# Registers that comparisons leave on the stack

Where a comparison always yields zero, the one that is loaded when it holds
stays on the stack: both ways meet in front of a single pop. So every comparison
that holds on the way costs a register, and the stack is balanced in programs
without comparisons only.
-/

/-- How many comparisons an expression makes. -/
def Expr.comparisons (value : Expr) : Nat :=
  value.constructs.count .comparison

/--
How many comparisons hold on a way through a statement on which all of them
hold, every loop makes the given number of passes and of two branches the one
with more comparisons is taken.
-/
def Stmt.heldComparisons (passes : Nat) : Stmt → Nat
  | .skip => 0
  | .sequence first second =>
      first.heldComparisons passes + second.heldComparisons passes
  | .conditional condition body =>
      condition.comparisons + body.heldComparisons passes
  | .choice condition onTrue onFalse =>
      condition.comparisons +
        max (onTrue.heldComparisons passes) (onFalse.heldComparisons passes)
  | .loop condition body =>
      passes * (condition.comparisons + body.heldComparisons passes) +
        condition.comparisons
  | .assignment _ value | .evaluation value => value.comparisons

theorem Expr.comparisons_pos
    {value : Expr}
    (compares : .comparison ∈ value.constructs) :
    0 < value.comparisons :=
  List.count_pos_iff.mpr compares

/-- A way through a statement that compares passes a comparison. -/
theorem Stmt.heldComparisons_pos
    {body : Stmt}
    (compares : .comparison ∈ body.constructs) :
    0 < body.heldComparisons 1 := by
  have inExpression := @Expr.comparisons_pos
  induction body with
  | skip =>
      cases compares
  | sequence first second firstHeld secondHeld =>
      rcases List.mem_append.mp compares with inFirst | inSecond
      · exact Nat.add_pos_left (firstHeld inFirst) _
      · exact Nat.add_pos_right _ (secondHeld inSecond)
  | conditional condition body bodyHeld =>
      have parts :
          .comparison ∈ condition.constructs ∨
            .comparison ∈ body.constructs := by
        simpa [constructs] using compares
      rcases parts with inCondition | inBody
      · exact Nat.add_pos_left (inExpression inCondition) _
      · exact Nat.add_pos_right _ (bodyHeld inBody)
  | choice condition onTrue onFalse trueHeld falseHeld =>
      have parts :
          .comparison ∈ condition.constructs ∨ .comparison ∈ onTrue.constructs ∨
            .comparison ∈ onFalse.constructs := by
        simpa [constructs] using compares
      rcases parts with inCondition | inTrue | inFalse
      · exact Nat.add_pos_left (inExpression inCondition) _
      · exact Nat.add_pos_right _
          ((trueHeld inTrue).trans_le (Nat.le_max_left _ _))
      · exact Nat.add_pos_right _
          ((falseHeld inFalse).trans_le (Nat.le_max_right _ _))
  | loop condition body bodyHeld =>
      have parts :
          .comparison ∈ condition.constructs ∨
            .comparison ∈ body.constructs := by
        simpa [constructs] using compares
      rw [heldComparisons, Nat.one_mul]
      rcases parts with inCondition | inBody
      · exact Nat.add_pos_right _ (inExpression inCondition)
      · exact Nat.add_pos_left (Nat.add_pos_right _ (bodyHeld inBody)) _
  | assignment target value | evaluation value =>
      exact inExpression compares

namespace Compile

section Level

theorem levelAfter_withoutOne_comparisonCode
    (relation : Relation)
    (left right result : Cell)
    (number : Nat) :
    levelAfter 0
      ((comparisonCode .alwaysZero relation left right result number).map
        Line.withoutOne) =
        some 0 := by
  cases relation <;> rfl

theorem levelAfter_withoutOne_moduloCode
    (rounding : QuotientRounding)
    (left right quotient slot whole product result : Cell) :
    levelAfter 0
      ((moduloCode rounding left right quotient slot whole product result).map
        Line.withoutOne) = some 0 := by
  cases rounding <;> rfl

/--
Without its loads of one every piece of code leads from an empty stack
to an empty stack.
-/
theorem kept_withoutOne
    {options : Options}
    (isZero : options.comparison = .alwaysZero) :
    Kept options fun lines =>
      levelAfter 0 (lines.map Line.withoutOne) = some 0 where
  nil := rfl
  append := by
    intro first second firstLevel secondLevel
    rw [List.map_append, levelAfter_append, firstLevel, Option.bind_some,
      secondLevel]
  title _ := rfl
  zero _ _ := rfl
  literal _ _ := rfl
  copy _ _ := rfl
  arithmetic _ _ _ _ := rfl
  modulo left right quotient number whole product result :=
    levelAfter_withoutOne_moduloCode options.modulo left right quotient
      (.slot number) whole product result
  comparison := by
    rw [isZero]
    exact levelAfter_withoutOne_comparisonCode
  conditionalStart _ _ := rfl
  otherBranch _ := rfl
  conditionalEnd _ := rfl
  choiceEnd _ := rfl
  loopStart _ := rfl
  loopTest _ _ := rfl
  loopEnd _ := rfl
  assign _ _ := rfl

end Level

section Count

variable
    (options : Options)

theorem surplus_comparisonCode
    (mode : ComparisonResult)
    (relation : Relation)
    (left right result : Cell)
    (number : Nat) :
    surplus (comparisonCode mode relation left right result number) = 1 := by
  cases mode <;> rfl

theorem surplus_moduloCode
    (rounding : QuotientRounding)
    (left right quotient slot whole product result : Cell) :
    surplus
      (moduloCode rounding left right quotient slot whole product result) =
        0 := by
  cases rounding <;> rfl

/-- The code of an expression loads a one for every comparison. -/
theorem surplus_expression
    (value : Expr)
    (counters : Counters) :
    surplus (expression options value counters).code = value.comparisons := by
  induction value generalizing counters with
  | absent | misplaced | literal lexeme | «variable» name =>
      rfl
  | arithmetic operation left right leftCount rightCount =>
      simp only [expression, arithmeticOperand, surplus_append, leftCount,
        rightCount, Expr.comparisons, Expr.constructs, List.count_append]
      rfl
  | modulo left right leftCount rightCount =>
      simp only [expression, moduloOperand, surplus_append, leftCount,
        rightCount, Expr.comparisons, Expr.constructs, List.count_append,
        surplus_moduloCode, Nat.add_zero]
      exact congrArg (· + _) (Nat.zero_add _)
  | comparison relation left right leftCount rightCount =>
      simp only [expression, comparisonOperand, surplus_append, leftCount,
        rightCount, Expr.comparisons, Expr.constructs, List.count_append,
        surplus_comparisonCode]
      rfl

/-- The code of a statement loads a one for every comparison. -/
theorem surplus_statement
    (body : Stmt)
    (counters : Counters) :
    surplus (statement options body counters).code =
      body.constructs.count .comparison := by
  have inExpression : ∀ value counters,
      surplus (expression options value counters).code =
        value.constructs.count .comparison :=
    surplus_expression options
  have inHead : ∀ cell number, surplus (conditionalHead cell number) = 0 :=
    fun _ _ => rfl
  induction body generalizing counters with
  | skip =>
      rfl
  | sequence first second firstCount secondCount =>
      simp only [statement, surplus_append, firstCount, secondCount,
        Stmt.constructs, List.count_append]
  | conditional condition body bodyCount =>
      have inEnd : ∀ number,
          surplus [.label ⟨.elseBranch, number⟩,
            .label ⟨.endOfConditional, number⟩] = 0 :=
        fun _ => rfl
      simp [statement, inExpression, inHead, bodyCount, inEnd, Stmt.constructs]
  | choice condition onTrue onFalse trueCount falseCount =>
      have inMiddle : ∀ number,
          surplus [.code (.jump .always ⟨.endOfConditional, number⟩),
            .label ⟨.elseBranch, number⟩] = 0 :=
        fun _ => rfl
      simp only [statement, surplus_append, inExpression, inHead, trueCount,
        falseCount, inMiddle, surplus_label, Stmt.constructs, List.count_append]
      simp [Nat.add_assoc]
  | loop condition body bodyCount =>
      have inFront : ∀ number, surplus (loopHead number) = 0 := fun _ => rfl
      have inTest : ∀ cell target, surplus (jumpIfZero cell target) = 0 :=
        fun _ _ => rfl
      have inTail : ∀ number, surplus (loopTail number) = 0 := fun _ => rfl
      simp [statement, inExpression, inFront, inTest, inTail, bodyCount,
        Stmt.constructs]
  | assignment target value =>
      have inAssign : ∀ cell target, surplus (assignCode cell target) = 0 :=
        fun _ _ => rfl
      simp only [statement, surplus_append, inExpression, inAssign,
        Stmt.constructs]
      exact Nat.zero_add _
  | evaluation value =>
      exact inExpression value counters

end Count

section Crossing

theorem failsUnsigned_ne_always (relation : Relation) :
    failsUnsigned relation ≠ .always := by
  cases relation <;> decide

theorem failsSigned_ne_always (relation : Relation) :
    failsSigned relation ≠ .always := by
  cases relation <;> decide

theorem passable_comparisonCode
    (mode : ComparisonResult)
    (relation : Relation)
    (left right result : Cell)
    (number : Nat) :
    Passable (comparisonCode mode relation left right result number) := by
  have title :
      Passable
        ([Line.blank, .comment ("--- Comparison " ++ relation.sign ++ " ---"),
      .code (.load left), .code (.subtractCell right)] ++ flagsOfTop) :=
    .of_conditional (by simp [flagsOfTop, Line.control?, Line.code])
  cases mode with
  | boolean =>
      have tail : Passable [.code .discard, .code .loadZero,
          .code (.jump (failsUnsigned relation) ⟨.endOfComparison, number⟩),
          .label ⟨.comparisonHolds, number⟩, .code .discard, .code .loadOne,
          .label ⟨.endOfComparison, number⟩, .code (.store result)] :=
        .of_conditional
          (by simp [Line.control?, Line.code, failsUnsigned_ne_always])
      exact (title.append tail).append
        (.of_conditional (by simp [Line.control?]))
  | alwaysZero =>
      have front : Passable [
          .instr (.jump (failsSigned relation) ⟨.endOfComparison, number⟩) 3,
          .label ⟨.comparisonHolds, number⟩, .code .loadOne] :=
        .of_conditional
          (by simp [Line.control?, Line.code, failsSigned_ne_always])
      have back :
          Passable [.code .discard, .code .loadZero, .code (.store result)] :=
        .of_conditional (by simp [Line.control?, Line.code])
      have tail := (front.append (.jump ⟨.endOfComparison, number⟩)).append back
      exact (title.append tail).append
        (.of_conditional (by simp [Line.control?]))

/--
In the code of an expression every jump without a condition leads to
the next line.
-/
theorem passable_expression
    (options : Options)
    (value : Expr)
    (counters : Counters) :
    Passable (expression options value counters).code := by
  induction value generalizing counters with
  | absent | misplaced =>
      exact .of_conditional
        (by simp [expression, zeroOperand, Line.control?, Line.code])
  | literal lexeme =>
      exact .of_conditional
        (by simp [expression, literalOperand, Line.control?, Line.code])
  | «variable» name =>
      exact .of_conditional
        (by simp [expression, variableOperand, Line.control?, Line.code])
  | arithmetic operation left right leftPassable rightPassable =>
      refine ((leftPassable _).append (rightPassable _)).append
        (.of_conditional ?_)
      simp [arithmeticCode, combineCode, Line.control?, Line.code]
  | modulo left right leftPassable rightPassable =>
      have title :
          Passable [.blank, .comment "--- Modulo (left % right) ---"] :=
        .of_conditional (by simp [Line.control?])
      refine ((title.append (leftPassable _)).append (rightPassable _)).append
        (.of_conditional ?_)
      cases options.modulo <;>
        simp [moduloCode, combineCode, roundCode, Line.control?, Line.code]
  | comparison relation left right leftPassable rightPassable =>
      exact ((leftPassable _).append (rightPassable _)).append
        (passable_comparisonCode _ _ _ _ _ _)

/-- The test of a cell in front of a jump. -/
def testCode (cell : Cell) : List Line :=
  [.code (.load cell)] ++ flagsOfTop ++ [.code .discard]

variable
    {code : List Line}
    (unique : (labels code).Nodup)
    (options : Options)

include unique

/-- Expressions are passed in the order of their lines. -/
theorem crossed_expression
    (value : Expr)
    (counters : Counters) :
    Crossed code value.comparisons
      (expression options value counters).code := by
  rw [← surplus_expression options value counters]
  exact .of_passable unique (passable_expression options value counters)

/--
Lines without jumps are passed in their order, and load no one if
none of them does.
-/
theorem crossed_plain
    {lines : List Line}
    (conditional :
      ∀ line ∈ lines, ∀ target, line.control? ≠ some (.jump .always target))
    (none : surplus lines = 0) :
    Crossed code 0 lines := by
  rw [← none]
  exact .of_passable unique (.of_conditional conditional)

/--
Every statement is crossed on a way on which its loops make the
given number of passes.
-/
theorem crossed_statement
    (passes : Nat)
    (body : Stmt)
    (counters : Counters) :
    Crossed code (body.heldComparisons passes)
      (statement options body counters).code := by
  have inExpression := crossed_expression unique options
  have title : ∀ text, Crossed code 0 [.blank, .comment text] := fun _ =>
    crossed_plain unique (by simp [Line.control?]) rfl
  have testsCell : ∀ cell, Crossed code 0 (testCode cell) := fun _ =>
    crossed_plain unique
      (by simp [testCode, flagsOfTop, Line.control?, Line.code]) rfl
  have jump :
      ∀ number, Crossed code 0 [.code (.jump .equal ⟨.elseBranch, number⟩)] :=
    fun _ => crossed_plain unique (by simp [Line.control?, Line.code]) rfl
  have front : ∀ cell,
      Crossed code 0
        ([Line.blank, .comment "--- IF statement ---"] ++ testCode cell) :=
    fun cell => (title "--- IF statement ---").append (testsCell cell)
  induction body generalizing counters with
  | skip =>
      exact .of_passable unique (.of_conditional (by simp [statement]))
  | sequence first second firstCrossed secondCrossed =>
      exact (firstCrossed _).append (secondCrossed _)
  | conditional condition body bodyCrossed =>
      have ends :
          ∀ number,
            Crossed code 0
              [.label ⟨.elseBranch, number⟩,
                .label ⟨.endOfConditional, number⟩] :=
        fun _ => crossed_plain unique (by simp [Line.control?]) rfl
      exact (((inExpression condition counters).append
        ((front _).append (jump _))).append (bodyCrossed _)).append (ends _)
  | choice condition onTrue onFalse trueCrossed falseCrossed =>
      let test := expression options condition counters
      let taken := statement options onTrue test.next.addLabel
      rcases Nat.le_total (onFalse.heldComparisons passes)
        (onTrue.heldComparisons passes) with moreOnTrue | moreOnFalse
      · rw [Stmt.heldComparisons, Nat.max_eq_left moreOnTrue]
        exact .firstBranch unique (((inExpression condition counters).append
          ((front _).append (jump _))).append (trueCrossed _))
      · have tested :=
          (inExpression condition counters).append (front test.cell)
        have shape :
            (statement options (.choice condition onTrue onFalse)
              counters).code =
              test.code ++
                ([Line.blank, Line.comment "--- IF statement ---"] ++
                  testCode test.cell) ++
                [Line.instr (.jump .equal ⟨.elseBranch, test.next.labels + 1⟩)
                  0] ++ taken.code ++
                [Line.code
                  (.jump .always ⟨.endOfConditional, test.next.labels + 1⟩),
                  Line.label ⟨.elseBranch, test.next.labels + 1⟩] ++
                (statement options onFalse taken.next).code ++
                [Line.label ⟨.endOfConditional, test.next.labels + 1⟩] := by
          simp [statement, conditionalHead, jumpIfZero, testCode, Line.code,
            test, taken]
        rw [shape, Stmt.heldComparisons, Nat.max_eq_right moreOnFalse]
        exact tested.secondBranch unique (falseCrossed _)
  | loop condition body bodyCrossed =>
      let test := expression options condition counters.addLabel
      have tested :=
        (inExpression condition counters.addLabel).append (testsCell test.cell)
      have shape :
          (statement options (.loop condition body) counters).code =
            [Line.blank, Line.comment "--- WHILE statement ---"] ++
              [Line.label ⟨.loopStart, counters.labels + 1⟩] ++
              (test.code ++ testCode test.cell) ++
              [Line.instr (.jump .equal ⟨.endOfLoop, counters.labels + 1⟩) 0] ++
              (statement options body test.next).code ++
              [Line.code (.jump .always ⟨.loopStart, counters.labels + 1⟩),
                Line.label ⟨.endOfLoop, counters.labels + 1⟩] := by
        simp [statement, loopHead, loopTail, jumpIfZero, testCode,
          Line.code, test]
      rw [shape]
      exact ((title "--- WHILE statement ---").loop unique (by decide) tested
        (bodyCrossed test.next) passes).recount (Nat.zero_add _)
  | assignment target value =>
      have assigns : ∀ cell, Crossed code 0 (assignCode cell target) := fun _ =>
        crossed_plain unique (by simp [assignCode, Line.control?]) rfl
      have crossed := ((title "--- Assignment ---").append
        (inExpression value counters)).append
          (assigns (expression options value counters).cell)
      exact crossed.recount (Nat.zero_add _)
  | evaluation value =>
      exact inExpression value counters

end Crossing

/-- The code of a statement is the first of its stretches. -/
theorem mem_statementStretches
    (options : Options)
    (body : Stmt)
    (counters : Counters)
    (start : Nat) :
    ⟨start, (statement options body counters).code⟩ ∈
      statementStretches options body counters start := by
  cases body with
  | evaluation value =>
      cases value <;> exact List.mem_cons_self
  | _ =>
      exact List.mem_cons_self

end Compile

namespace Program

/-- Where the code of the whole statement tree stands. -/
def whole
    (program : Program)
    (options : Compile.Options) :
    Stretch :=
  ⟨Compile.codeHeader.length,
    (Compile.statement options (Compile.statementOf program.tree) .start).code⟩

theorem whole_mem_stretches
    (program : Program)
    (options : Compile.Options) :
    program.whole options ∈ program.stretches options :=
  Compile.mem_statementStretches options _ _ _

/-- The code of a program loads a one for every comparison. -/
theorem surplus_code
    (program : Program)
    (options : Compile.Options) :
    surplus (program.listing options).code =
      (Compile.statementOf program.tree).constructs.count .comparison := by
  have header : surplus Compile.codeHeader = 0 := rfl
  have footer : surplus Compile.codeFooter = 0 := rfl
  simp only [listing, Compile.listing, Compile.listingAround, surplus_append,
    header, footer, Compile.surplus_statement, Nat.zero_add, Nat.add_zero]

/--
A way leads through the program on which its loops make the given
number of passes.
-/
theorem exists_walk_held
    (program : Program)
    (options : Compile.Options)
    (passes : Nat) :
    ∃ between,
      Walk (program.listing options).code Compile.codeHeader
        (program.whole options).start ∧
        Route (program.listing options).code
          (program.whole options).start between ((program.whole options).start +
            (program.whole options).lines.length) ∧
        surplus between =
          (Compile.statementOf program.tree).heldComparisons passes := by
  have unique := (program.nested_code options).nodup_labels
  have enters := Route.lines unique (program.placed_header options)
    (.of_conditional (by simp [Compile.codeHeader, Line.control?]))
  rw [Nat.zero_add] at enters
  obtain ⟨between, route, counted⟩ :=
    Compile.crossed_statement unique options passes
      (Compile.statementOf program.tree) .start _ (program.placed_body options)
  exact ⟨between, Walk.start.follow enters, route, counted⟩

section Zero

variable
    (program : Program)
    {options : Compile.Options}
    (isZero : options.comparison = .alwaysZero)

include isZero

theorem levelAfter_withoutOne_code :
    levelAfter 0 ((program.listing options).code.map Line.withoutOne) =
      some 0 := by
  have kept := Compile.kept_withoutOne isZero
  exact kept.append (kept.append rfl (kept.of_statement _ _)) rfl

/-- The depth of the stack is accounted for in every program. -/
theorem accounted :
    Accounted (program.listing options).code (program.stretches options)
      (baseDepth (program.listing options).code) where
  counted passed position walk :=
    depthAfter_walk_surplus (program.levelAfter_withoutOne_code isZero) walk
  bounded := depthAt_le (program.levelAfter_withoutOne_code isZero) (by decide)
  emptyAround := by
    have behind :
        ∀ {lines : List Line} {position : Nat},
          levelAfter 0 (lines.map Line.withoutOne) = some 0 →
            Placed (program.listing options).code position lines →
              baseDepth (program.listing options).code position = 0 →
                baseDepth (program.listing options).code
                  (position + lines.length) = 0 := by
      intro lines position leads placed empty
      have passed := depthAt_behind (program.levelAfter_withoutOne_code isZero)
        placed.withoutOne empty leads
      rwa [List.length_map] at passed
    exact program.around_stretches (Compile.kept_withoutOne isZero) behind rfl
      (depthAt_zero _)

/--
The whole program leaves a register for every comparison that holds on the way.
-/
theorem depthAfter_held (passes : Nat) :
    ∃ passed,
      Walk (program.listing options).code passed
          ((program.whole options).start +
            (program.whole options).lines.length) ∧
        depthAfter 0 passed =
          some ((Compile.statementOf program.tree).heldComparisons passes) := by
  obtain ⟨between, walk, route, counted⟩ :=
    program.exists_walk_held options passes
  have header : surplus Compile.codeHeader = 0 := rfl
  obtain ⟨-, behind⟩ := (program.accounted isZero).depth_behind
    (program.whole_mem_stretches options) walk route
  rw [counted, header, Nat.zero_add] at behind
  exact ⟨_, walk.follow route, behind⟩

/-- A program that compares leaves the stack unbalanced as a whole. -/
theorem not_balanced_whole
    (compares : .comparison ∈ (Compile.statementOf program.tree).constructs) :
    ¬ Balanced (program.listing options).code [program.whole options] := by
  obtain ⟨between, walk, route, counted⟩ := program.exists_walk_held options 1
  have accounted := (program.accounted isZero).mono
    (List.cons_subset.mpr
      ⟨program.whole_mem_stretches options, List.nil_subset _⟩)
  refine accounted.not_balanced (List.mem_singleton_self _) walk route ?_
  rw [counted]
  exact Stmt.heldComparisons_pos compares

end Zero

/--
Where comparisons always yield zero, every comparison that holds on the way
leaves a register on the stack. So the stack is balanced around the statements
of a program, and within the eight registers, exactly if the program makes no
comparison; and the passes of a loop that compares add up.
-/
theorem zeroed_stack_accounted
    (program : Program)
    (modulo : Compile.QuotientRounding)
    (literals : Compile.LiteralForm) :
    let options : Compile.Options := ⟨.alwaysZero, modulo, literals⟩
    let code := (program.listing options).code
    let body := Compile.statementOf program.tree
    (∃ base, Accounted code (program.stretches options) base) ∧
      [Balanced code (program.stretches options),
        Balanced code [program.whole options],
        .comparison ∉ body.constructs].TFAE ∧
      ∀ passes, ∃ passed,
        Walk code passed
            ((program.whole options).start +
              (program.whole options).lines.length) ∧
          depthAfter 0 passed = some (body.heldComparisons passes) := by
  intro options code body
  have isZero : options.comparison = .alwaysZero := rfl
  have accounted := program.accounted isZero
  refine ⟨⟨_, accounted⟩, ?_, program.depthAfter_held isZero⟩
  tfae_have 1 → 2 := by
    intro balanced
    refine ⟨fun stretch member => balanced.returns stretch ?_,
      balanced.withinRegisters⟩
    rw [List.mem_singleton.mp member]
    exact program.whole_mem_stretches options
  tfae_have 2 → 3 := fun balanced compares =>
    program.not_balanced_whole isZero compares balanced
  tfae_have 3 → 1 := by
    intro noComparison
    refine accounted.balanced ?_
    rw [program.surplus_code, List.count_eq_zero_of_not_mem noComparison]
  tfae_finish

/-- A program that compares one with one. -/
def comparing : Program :=
  let built := Store.empty.addTree (.node "==" (.leaf "1") (.leaf "1"))
  ⟨built.1, .empty, built.2⟩

/-- A program that compares in front of every pass of a loop. -/
def looping : Program :=
  let built := Store.empty.addTree
    (.node "while" (.node "==" (.leaf "x") (.leaf "x"))
      (.node "=" (.leaf "x") (.leaf "1")))
  ⟨built.1, .empty, built.2⟩

/--
A comparison unbalances the stack, and a loop of comparisons needs a
ninth register.
-/
theorem zeroed_stack_unbalanced :
    ¬ Balanced (comparing.listing ⟨.alwaysZero, .floor, .real⟩).code
        [comparing.whole ⟨.alwaysZero, .floor, .real⟩] ∧
      ∃ passed position,
        Walk (looping.listing ⟨.alwaysZero, .floor, .real⟩).code passed
          position ∧
          depthAfter 0 passed = some 9 := by
  let options : Compile.Options := ⟨.alwaysZero, .floor, .real⟩
  have isZero : options.comparison = .alwaysZero := rfl
  have compares :
      .comparison ∈ (Compile.statementOf comparing.tree).constructs := by
    decide
  have held : (Compile.statementOf looping.tree).heldComparisons 8 = 9 := by
    decide
  obtain ⟨passed, walk, depth⟩ := looping.depthAfter_held isZero 8
  rw [held] at depth
  exact ⟨comparing.not_balanced_whole isZero compares, passed, _, walk, depth⟩

end Program

end Coprocessor
