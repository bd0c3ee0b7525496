import Coprocessor.Compile.Listing
import Coprocessor.Proofs.Assembly.Flow

namespace Coprocessor.Compile

open Assembly

/-!
# The pieces of compiled code

The code of expressions and statements is put together from a few kinds of
pieces. What holds of lines that follow one another if it holds of each of them
holds of all compiled code as soon as it holds of the pieces.
-/

/--
A property of lines that holds of every piece of compiled code and
passes to joined lines.
-/
structure Kept
    (options : Options)
    (keeps : List Line → Prop) :
    Prop where
  nil : keeps []
  append :
    ∀ {first second : List Line},
      keeps first → keeps second → keeps (first ++ second)
  title : ∀ text, keeps [.blank, .comment text]
  zero : ∀ reason counters, keeps (zeroOperand reason counters).code
  literal : ∀ lexeme counters,
    keeps (literalOperand options.literals lexeme counters).code
  copy : ∀ name counters, keeps (variableOperand name counters).code
  arithmetic :
    ∀ operation left right result,
      keeps (arithmeticCode operation left right result)
  modulo :
    ∀ left right quotient number whole product result,
      keeps
        (moduloCode options.modulo left right quotient (.slot number) whole
          product result)
  comparison :
    ∀ relation left right result number,
      keeps
        (comparisonCode options.comparison relation left right result number)
  conditionalStart : ∀ cell number, keeps (conditionalHead cell number)
  otherBranch :
    ∀ number,
      keeps [.code (.jump .always ⟨.endOfConditional, number⟩),
        .label ⟨.elseBranch, number⟩]
  conditionalEnd :
    ∀ number,
      keeps [.label ⟨.elseBranch, number⟩, .label ⟨.endOfConditional, number⟩]
  choiceEnd : ∀ number, keeps [.label ⟨.endOfConditional, number⟩]
  loopStart : ∀ number, keeps (loopHead number)
  loopTest : ∀ cell number, keeps (jumpIfZero cell ⟨.endOfLoop, number⟩)
  loopEnd : ∀ number, keeps (loopTail number)
  assign : ∀ cell target, keeps (assignCode cell target)

namespace Kept

variable
    {options : Options}
    {keeps : List Line → Prop}
    (kept : Kept options keeps)

include kept

/-- What holds of the pieces holds of the code of every expression. -/
theorem of_expression
    (value : Expr)
    (counters : Counters) :
    keeps (expression options value counters).code := by
  induction value generalizing counters with
  | absent =>
      exact kept.zero _ counters
  | misplaced =>
      exact kept.zero _ counters
  | literal lexeme =>
      exact kept.literal lexeme counters
  | «variable» name =>
      exact kept.copy name counters
  | arithmetic operation left right leftKept rightKept =>
      exact kept.append (kept.append (leftKept _) (rightKept _))
        (kept.arithmetic _ _ _ _)
  | modulo left right leftKept rightKept =>
      refine kept.append
        (kept.append (kept.append ?_ (leftKept _)) (rightKept _)) ?_
      · exact kept.title _
      · exact kept.modulo _ _ _ _ _ _ _
  | comparison relation left right leftKept rightKept =>
      exact kept.append (kept.append (leftKept _) (rightKept _))
        (kept.comparison _ _ _ _ _)

/-- What holds of the pieces holds of the code of every statement. -/
theorem of_statement
    (body : Stmt)
    (counters : Counters) :
    keeps (statement options body counters).code := by
  induction body generalizing counters with
  | skip =>
      exact kept.nil
  | sequence first second firstKept secondKept =>
      exact kept.append (firstKept _) (secondKept _)
  | conditional condition body bodyKept =>
      refine kept.append (kept.append (kept.append ?_ ?_) (bodyKept _)) ?_
      · exact kept.of_expression condition counters
      · exact kept.conditionalStart _ _
      · exact kept.conditionalEnd _
  | choice condition onTrue onFalse trueKept falseKept =>
      refine kept.append
        (kept.append (kept.append (kept.append (kept.append ?_ ?_)
        (trueKept _)) ?_) (falseKept _)) ?_
      · exact kept.of_expression condition counters
      · exact kept.conditionalStart _ _
      · exact kept.otherBranch _
      · exact kept.choiceEnd _
  | loop condition body bodyKept =>
      refine kept.append
        (kept.append (kept.append (kept.append ?_ ?_) ?_) (bodyKept _)) ?_
      · exact kept.loopStart _
      · exact kept.of_expression condition counters.addLabel
      · exact kept.loopTest _ _
      · exact kept.loopEnd _
  | assignment target value =>
      refine kept.append (kept.append ?_ ?_) ?_
      · exact kept.title _
      · exact kept.of_expression value counters
      · exact kept.assign _ target
  | evaluation value =>
      exact kept.of_expression value counters

end Kept

end Coprocessor.Compile
