import Coprocessor.Proofs.Assembly.Labels

namespace Coprocessor

open Assembly

/-!
# Labels of compiled programs

The constructs of a tree are listed in the order in which the compiler numbers
them: a loop before its condition, a conditional after its condition and a
comparison after both operands. The code of every tree is nested with exactly
these constructs.
-/

/-- The constructs of a tree where a value is wanted. -/
def Tree.operandConstructs : Tree String → List Construct
  | .absent => []
  | .node tag left right =>
      match Kind.ofTag tag with
      | .arithmetic _ | .modulo =>
          left.operandConstructs ++ right.operandConstructs
      | .comparison _ =>
          left.operandConstructs ++ right.operandConstructs ++ [.comparison]
      | .sequence | .conditional | .loop | .assignment | .alternatives
      | .literal | .identifier => []

/--
The constructs of a tree where a statement is wanted, or the body of
a conditional.
-/
def Tree.constructs (isBody : Bool) : Tree String → List Construct
  | .absent => []
  | .node tag left right =>
      match Kind.ofTag tag with
      | .sequence => left.constructs false ++ right.constructs false
      | .conditional =>
          left.operandConstructs ++ .conditional :: right.constructs true
      | .loop => .loop :: (left.operandConstructs ++ right.constructs false)
      | .assignment =>
          if left.label?.map Kind.ofTag = some .identifier then
            right.operandConstructs
          else
            []
      | .alternatives =>
          if isBody then left.constructs false ++ right.constructs false else []
      | .arithmetic _ | .modulo | .comparison _ | .literal | .identifier =>
          operandConstructs (.node tag left right)

/-- The constructs of an expression in the order of their numbers. -/
def Expr.constructs : Expr → List Construct
  | .absent | .misplaced | .literal _ | .variable _ => []
  | .arithmetic _ left right | .modulo left right =>
      left.constructs ++ right.constructs
  | .comparison _ left right =>
      left.constructs ++ right.constructs ++ [.comparison]

/-- The constructs of a statement in the order of their numbers. -/
def Stmt.constructs : Stmt → List Construct
  | .skip => []
  | .sequence first second => first.constructs ++ second.constructs
  | .conditional condition body =>
      condition.constructs ++ .conditional :: body.constructs
  | .choice condition onTrue onFalse =>
      condition.constructs ++
        .conditional :: (onTrue.constructs ++ onFalse.constructs)
  | .loop condition body => .loop :: (condition.constructs ++ body.constructs)
  | .assignment _ value | .evaluation value => value.constructs

theorem Expr.constructs_ofTree (tree : Tree String) :
    (ofTree tree).constructs = tree.operandConstructs := by
  induction tree with
  | absent =>
      rfl
  | node tag left right leftConstructs rightConstructs =>
      simp only [ofTree, Tree.operandConstructs]
      cases Kind.ofTag tag <;>
        simp [constructs, leftConstructs, rightConstructs]

theorem Stmt.constructs_assign
    (target : Tree String)
    (value : Expr) :
    (assign target value).constructs =
      if target.label?.map Kind.ofTag = some .identifier then
        value.constructs
      else
        [] := by
  cases target with
  | absent =>
      rfl
  | node tag left right =>
      by_cases isVariable : Kind.ofTag tag = .identifier <;>
        simp [assign, constructs, Tree.label?, isVariable]

/--
As the body of a conditional only a pair of alternatives differs
from a statement.
-/
theorem Tree.constructs_of_not_alternatives
    {tag : String}
    (different : Kind.ofTag tag ≠ .alternatives)
    (left right : Tree String) :
    (Tree.node tag left right).constructs true =
      (Tree.node tag left right).constructs false := by
  simp only [Tree.constructs]
  split <;> simp_all

theorem Stmt.constructs_ofTree (tree : Tree String) :
    (ofTree tree).constructs = tree.constructs false := by
  fun_induction ofTree tree with
  | case1 =>
      rfl
  | case2 tag left right isSequence first second =>
      simp only [constructs, Tree.constructs, isSequence, first, second]
  | case3 tag condition isConditional =>
      simp only [constructs, Tree.constructs, isConditional,
        Expr.constructs_ofTree]
  | case4 tag condition isConditional inner onTrue onFalse hasTwo first
      second =>
      simp only [constructs, Tree.constructs, isConditional,
        Expr.constructs_ofTree, hasTwo, first, second, ↓reduceIte]
  | case5 tag condition isConditional inner left right hasOne body =>
      rw [Tree.constructs, isConditional]
      simp only [constructs, Expr.constructs_ofTree, body,
        Tree.constructs_of_not_alternatives hasOne]
  | case6 tag condition body isLoop inductionHypothesis =>
      simp only [constructs, Tree.constructs, isLoop, Expr.constructs_ofTree,
        inductionHypothesis]
  | case7 tag target value isAssignment =>
      simp only [constructs_assign, Tree.constructs, isAssignment,
        Expr.constructs_ofTree]
  | case8 tag left right kind
  | case9 tag left right operation kind
  | case10 tag left right kind
  | case11 tag left right relation kind
  | case12 tag left right kind
  | case13 tag left right kind =>
      simp [constructs, Tree.constructs, kind, Expr.constructs_ofTree,
        Tree.operandConstructs]

namespace Compile

theorem nested_comparisonCode
    (mode : ComparisonResult)
    (relation : Relation)
    (left right result : Cell)
    (number : Nat) :
    Nested number [.comparison]
      (comparisonCode mode relation left right result (number + 1))
      (number + 1) := by
  have front :
      Plain
        ([Line.blank, .comment ("--- Comparison " ++ relation.sign ++ " ---"),
        .code (.load left), .code (.subtractCell right)] ++ flagsOfTop) := by
    simp [flagsOfTop, Line.control?, Line.code]
  cases mode with
  | boolean =>
      have cleared : Plain [.code .discard, .code .loadZero] := by
        simp [Line.control?, Line.code]
      have holds : Plain [.code .discard, .code .loadOne] := by
        simp [Line.control?, Line.code]
      have back : Plain [.code (.store result), .blank] := by
        simp [Line.control?, Line.code]
      have tail :=
        (Nested.construct (.comparison (failsUnsigned relation)) (.plain holds)
          (.nil (number + 1))).followed back
      have whole := (tail.behind cleared).behind front
      exact whole
  | alwaysZero =>
      have holds : Plain [.code .loadOne] := by
        simp [Line.control?, Line.code]
      have back :
          Plain [.code .discard, .code .loadZero, .code (.store result),
            .blank] := by
        simp [Line.control?, Line.code]
      have tail :=
        (Nested.construct (.idleComparison (failsSigned relation))
          (.plain holds) (.nil (number + 1))).followed back
      have whole := tail.behind front
      exact whole

section Operands

variable
    {before : Nat}
    {first second : List Construct}
    {left right : Operand}
    (leftNested : Nested before first left.code left.next.labels)
    (rightNested : Nested left.next.labels second right.code right.next.labels)

include leftNested rightNested

theorem nested_arithmeticOperand (operation : Arithmetic) :
    Nested before (first ++ second)
      (arithmeticOperand operation left right).code
      (arithmeticOperand operation left right).next.labels := by
  refine (leftNested.append rightNested).followed ?_
  simp [arithmeticCode, combineCode, Line.control?, Line.code]

theorem nested_moduloOperand (rounding : QuotientRounding) :
    Nested before (first ++ second)
      (moduloOperand rounding left right).code
      (moduloOperand rounding left right).next.labels := by
  have front : Plain [.blank, .comment "--- Modulo (left % right) ---"] := by
    simp [Line.control?]
  refine ((leftNested.behind front).append rightNested).followed ?_
  cases rounding <;>
    simp [moduloCode, combineCode, roundCode, Line.control?, Line.code]

theorem nested_comparisonOperand
    (mode : ComparisonResult)
    (relation : Relation) :
    Nested before (first ++ second ++ [.comparison])
      (comparisonOperand mode relation left right).code
      (comparisonOperand mode relation left right).next.labels :=
  (leftNested.append rightNested).append
    (nested_comparisonCode mode relation left.cell right.cell
      (.temporary (right.next.cells + 1)) right.next.labels)

end Operands

/--
The code of an expression is nested with the constructs of the expression.
-/
theorem nested_expression
    (options : Options)
    (value : Expr)
    (counters : Counters) :
    Nested counters.labels value.constructs
      (expression options value counters).code
      (expression options value counters).next.labels := by
  induction value generalizing counters with
  | absent =>
      exact .plain (by simp [expression, zeroOperand, Line.control?, Line.code])
  | misplaced =>
      exact .plain (by simp [expression, zeroOperand, Line.control?, Line.code])
  | literal lexeme =>
      exact .plain
        (by simp [expression, literalOperand, Line.control?, Line.code])
  | «variable» name =>
      exact .plain
        (by simp [expression, variableOperand, Line.control?, Line.code])
  | arithmetic operation left right leftNested rightNested =>
      exact nested_arithmeticOperand (leftNested _) (rightNested _) operation
  | modulo left right leftNested rightNested =>
      exact nested_moduloOperand (leftNested _) (rightNested _) options.modulo
  | comparison relation left right leftNested rightNested =>
      exact nested_comparisonOperand (leftNested _) (rightNested _)
        options.comparison relation

/-- The code of a statement is nested with the constructs of the statement. -/
theorem nested_statement
    (options : Options)
    (body : Stmt)
    (counters : Counters) :
    Nested counters.labels body.constructs
      (statement options body counters).code
      (statement options body counters).next.labels := by
  induction body generalizing counters with
  | skip =>
      exact .nil _
  | sequence first second firstNested secondNested =>
      exact (firstNested _).append (secondNested _)
  | conditional condition body bodyNested =>
      let test := expression options condition counters
      have front :
          Plain ([Line.blank, .comment "--- IF statement ---"] ++
            (.code (.load test.cell) :: flagsOfTop ++ [.code .discard])) := by
        simp [flagsOfTop, Line.control?, Line.code]
      have own :=
        (Nested.construct .conditional (bodyNested test.next.addLabel)
          (.nil _)).behind front
      have whole := (nested_expression options condition counters).append own
      simpa [statement, Stmt.constructs, conditionalHead, jumpIfZero, test,
        Frame.opening, Frame.middle, Frame.closing, Frame.construct] using whole
  | choice condition onTrue onFalse trueNested falseNested =>
      let test := expression options condition counters
      have front :
          Plain ([Line.blank, .comment "--- IF statement ---"] ++
            (.code (.load test.cell) :: flagsOfTop ++ [.code .discard])) := by
        simp [flagsOfTop, Line.control?, Line.code]
      have own :=
        (Nested.construct .choice (trueNested test.next.addLabel)
          (falseNested
            (statement options onTrue test.next.addLabel).next)).behind front
      have whole := (nested_expression options condition counters).append own
      simpa [statement, Stmt.constructs, conditionalHead, jumpIfZero, test,
        Frame.opening, Frame.middle, Frame.closing, Frame.construct] using whole
  | loop condition body bodyNested =>
      let test := expression options condition counters.addLabel
      have front : Plain [.blank, .comment "--- WHILE statement ---"] := by
        simp [Line.control?]
      have tested :
          Plain
            (.code (.load test.cell) :: flagsOfTop ++ [.code .discard]) := by
        simp [flagsOfTop, Line.control?, Line.code]
      have whole :=
        (Nested.construct .loop
          ((nested_expression options condition counters.addLabel).followed
            tested)
          (bodyNested test.next)).behind front
      simpa [statement, Stmt.constructs, loopHead, loopTail, jumpIfZero, test,
        Frame.opening, Frame.middle, Frame.closing, Frame.construct] using whole
  | assignment target value =>
      have front : Plain [.blank, .comment "--- Assignment ---"] := by
        simp [Line.control?]
      refine ((nested_expression options value counters).behind front).followed
        ?_
      simp [assignCode, Line.control?]
  | evaluation value =>
      exact nested_expression options value counters

end Compile

namespace Program

/-- The listing that a program is compiled to. -/
def listing
    (program : Program)
    (options : Compile.Options) :
    Listing :=
  Compile.listing options program.symbols (Compile.statementOf program.tree)

/-- The code of a program is nested with the constructs of its tree. -/
theorem nested_code
    (program : Program)
    (options : Compile.Options) :
    Nested 0 ((program.tree.map Node.tag).constructs false)
      (program.listing options).code
      (Compile.statement options (Compile.statementOf program.tree)
        .start).next.labels := by
  have header : Plain Compile.codeHeader := by
    simp [Compile.codeHeader, Line.control?]
  have footer : Plain Compile.codeFooter := by
    simp [Compile.codeFooter, Line.control?]
  have body :=
    Compile.nested_statement options (Compile.statementOf program.tree) .start
  rw [Compile.statementOf, Stmt.constructs_ofTree] at body
  exact (body.behind header).followed footer

/--
Labels and jumps of every compiled program are closed and structured: its
constructs are numbered from one, each has two labels of its own, and every
jump but the one that closes a loop leads forward.
-/
theorem labels_structured
    (program : Program)
    (options : Compile.Options) :
    Structured ((program.tree.map Node.tag).constructs false)
      (program.listing options).code :=
  (program.nested_code options).structured

end Program

end Coprocessor
