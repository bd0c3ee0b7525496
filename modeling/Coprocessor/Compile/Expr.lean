import Coprocessor.Compile.Fragment
import Coprocessor.Compile.Options
import Coprocessor.Language.Expr
import Coprocessor.Symbol.Basic

namespace Coprocessor.Compile

open Assembly

/-!
# Compiling expressions

Every expression leaves its value in a temporary of its own, so the register
stack is empty between any two of them. Operands are compiled from left to
right, before the temporary of the result is numbered.
-/

/--
Set the processor flags by the sign of the topmost number, which
stays on the stack.
-/
def flagsOfTop : List Line :=
  [.code .test, .code .storeStatus, .code .setFlags]

/-- Combine two cells into a third. -/
def combineCode
    (operation : Arithmetic)
    (left right result : Cell) :
    List Line :=
  [.code (.load right), .code (.load left), .code (.combine operation),
    .code (.store result), .code .discard]

/-- The code of an arithmetic operation on two operands. -/
def arithmeticCode
    (operation : Arithmetic)
    (left right result : Cell) :
    List Line :=
  [.blank, .comment ("--- BinOp " ++ operation.sign ++ " ---")] ++
    combineCode operation left right result ++ [.blank]

/-- Round the number in a cell to an integer in a slot. -/
def roundCode
    (rounding : QuotientRounding)
    (quotient slot : Cell) :
    List Line :=
  match rounding with
  | .ambient =>
      [.remark "quotient -> int (current rounding mode)",
        .code (.load quotient), .code (.storeInteger slot)]
  | .floor =>
      [.remark "quotient -> int (round toward -inf)",
        .code (.load quotient),
        .code (.storeControl .savedControl),
        .code (.loadAccumulator .savedControl),
        .code (.maskAccumulator 0xF3FF),
        .code (.raiseAccumulator 0x0400),
        .code (.storeAccumulator .floorControl),
        .code (.loadControl .floorControl),
        .code (.storeInteger slot),
        .code (.loadControl .savedControl)]

/--
The code of a modulo behind its operands: left minus the rounded
quotient times right.
-/
def moduloCode
    (rounding : QuotientRounding)
    (left right quotient slot whole product result : Cell) :
    List Line :=
  [.remark "quotient = left / right"] ++
    combineCode .divide left right quotient ++
    roundCode rounding quotient slot ++
    [.code (.loadInteger slot), .code (.store whole),
      .blank, .comment "product = whole quotient * right"] ++
    combineCode .multiply whole right product ++
    [.blank, .comment "mod = left - product",
      .code (.load left), .code (.subtractCell product), .code (.store result)]

/--
The condition on the sign of left minus right under which a relation fails.
-/
def failsUnsigned : Relation → Condition
  | .equal => .notEqual
  | .notEqual => .equal
  | .less => .aboveOrEqual
  | .greater => .belowOrEqual
  | .lessOrEqual => .above
  | .greaterOrEqual => .below

/--
The signed condition that stands for the failure of a relation in
older listings.
-/
def failsSigned : Relation → Condition
  | .equal => .notEqual
  | .notEqual => .equal
  | .less => .greaterOrEqual
  | .greater => .lessOrEqual
  | .lessOrEqual => .greater
  | .greaterOrEqual => .less

/--
The code of a comparison of two operands, with labels of the given number.
-/
def comparisonCode
    (mode : ComparisonResult)
    (relation : Relation)
    (left right result : Cell)
    (number : Nat) :
    List Line :=
  [.blank, .comment ("--- Comparison " ++ relation.sign ++ " ---"),
    .code (.load left), .code (.subtractCell right)] ++
    flagsOfTop ++
    (match mode with
    | .boolean =>
        [.code .discard,
          .code .loadZero,
          .code (.jump (failsUnsigned relation) ⟨.endOfComparison, number⟩),
          .label ⟨.comparisonHolds, number⟩,
          .code .discard,
          .code .loadOne,
          .label ⟨.endOfComparison, number⟩,
          .code (.store result)]
    | .alwaysZero =>
        [.instr (.jump (failsSigned relation) ⟨.endOfComparison, number⟩) 3,
          .label ⟨.comparisonHolds, number⟩,
          .code .loadOne,
          .code (.jump .always ⟨.endOfComparison, number⟩),
          .label ⟨.endOfComparison, number⟩,
          .code .discard,
          .code .loadZero,
          .code (.store result)]) ++
    [.blank]

/-- The initial value of a literal. -/
def literalInitial
    (form : LiteralForm)
    (lexeme : String) :
    String :=
  match form with
  | .verbatim => Text.trim lexeme
  | .real => String.ofList (withFraction (Text.trimChars lexeme.toList))

/-- An expression that counts as zero, for the reason given. -/
def zeroOperand
    (reason : String)
    (counters : Counters) :
    Operand :=
  let result := counters.cells + 1
  { data := [declareTemporary result]
    code := [.comment (reason ++ " -> 0.0"), .code .loadZero,
      .code (.store (.temporary result))]
    next := counters.addCells 1
    cell := .temporary result }

/-- A literal, whose own cell holds its initial value. -/
def literalOperand
    (form : LiteralForm)
    (lexeme : String)
    (counters : Counters) :
    Operand :=
  let result := counters.cells + 1
  let constant := counters.cells + 2
  { data :=
      [declareTemporary result,
        declareLiteral constant (literalInitial form lexeme)]
    code := [.blank, .comment ("load literal " ++ lexeme),
      .code (.load (.literal constant)), .code (.store (.temporary result))]
    next := counters.addCells 2
    cell := .temporary result }

/-- A variable, copied to a temporary. -/
def variableOperand
    (name : String)
    (counters : Counters) :
    Operand :=
  let result := counters.cells + 1
  { data := [declareTemporary result]
    code := [.blank, .comment ("load variable " ++ name),
      .code (.load (.variable (Symbol.storedName name))),
      .code (.store (.temporary result))]
    next := counters.addCells 1
    cell := .temporary result }

/-- An arithmetic operation on compiled operands. -/
def arithmeticOperand
    (operation : Arithmetic)
    (left right : Operand) :
    Operand :=
  let result := right.next.cells + 1
  { data := left.data ++ right.data ++ [declareTemporary result]
    code := left.code ++ right.code ++
      arithmeticCode operation left.cell right.cell (.temporary result)
    next := right.next.addCells 1
    cell := .temporary result }

/-- A modulo on compiled operands. -/
def moduloOperand
    (rounding : QuotientRounding)
    (left right : Operand) :
    Operand :=
  let quotient := right.next.cells + 1
  let whole := right.next.cells + 2
  let product := right.next.cells + 3
  let result := right.next.cells + 4
  let slot := right.next.slots + 1
  { data := left.data ++ right.data ++
      [declareTemporary quotient, declareSlot slot, declareTemporary whole,
        declareTemporary product, declareTemporary result]
    code :=
      [.blank, .comment "--- Modulo (left % right) ---"] ++ left.code ++
        right.code ++
      moduloCode rounding left.cell right.cell (.temporary quotient)
        (.slot slot) (.temporary whole) (.temporary product) (.temporary result)
    next := (right.next.addCells 4).addSlot
    cell := .temporary result }

/-- A comparison of compiled operands. -/
def comparisonOperand
    (mode : ComparisonResult)
    (relation : Relation)
    (left right : Operand) :
    Operand :=
  let result := right.next.cells + 1
  { data := left.data ++ right.data ++ [declareTemporary result]
    code := left.code ++ right.code ++
      comparisonCode mode relation left.cell right.cell (.temporary result)
        (right.next.labels + 1)
    next := (right.next.addCells 1).addLabel
    cell := .temporary result }

/-- Compile an expression, starting from counters. -/
def expression
    (options : Options) :
    Expr → Counters → Operand
  | .absent, counters => zeroOperand "absent operand" counters
  | .misplaced, counters => zeroOperand "statement used as value" counters
  | .literal lexeme, counters => literalOperand options.literals lexeme counters
  | .variable name, counters => variableOperand name counters
  | .arithmetic operation left right, counters =>
      let first := expression options left counters
      arithmeticOperand operation first (expression options right first.next)
  | .modulo left right, counters =>
      let first := expression options left counters
      moduloOperand options.modulo first (expression options right first.next)
  | .comparison relation left right, counters =>
      let first := expression options left counters
      comparisonOperand options.comparison relation first
        (expression options right first.next)

end Coprocessor.Compile
