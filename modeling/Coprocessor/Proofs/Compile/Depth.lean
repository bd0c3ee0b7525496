import Coprocessor.Proofs.Assembly.Depth
import Coprocessor.Proofs.Compile.Labels
import Coprocessor.Proofs.Compile.Pieces

namespace Coprocessor

open Assembly

/-!
# The register stack of compiled programs

Where comparisons yield one or zero, the code of every expression and of every
statement passes the check of depths from an empty stack to an empty stack. So
the depth at each line of a program is fixed, whichever way leads to it.
-/

namespace Compile

/-- Where the code of an expression and of all its operands stands. -/
def expressionStretches
    (options : Options) :
    Expr → Counters → Nat → List Stretch
  | .arithmetic operation left right, counters, start =>
      let first := expression options left counters
      ⟨start,
        (expression options (.arithmetic operation left right)
          counters).code⟩ ::
        (expressionStretches options left counters start ++
          expressionStretches options right first.next
            (start + first.code.length))
  | .modulo left right, counters, start =>
      let first := expression options left counters
      ⟨start, (expression options (.modulo left right) counters).code⟩ ::
        (expressionStretches options left counters (start + 2) ++
          expressionStretches options right first.next
            (start + 2 + first.code.length))
  | .comparison relation left right, counters, start =>
      let first := expression options left counters
      ⟨start,
        (expression options (.comparison relation left right) counters).code⟩ ::
        (expressionStretches options left counters start ++
          expressionStretches options right first.next
            (start + first.code.length))
  | value, counters, start =>
      [⟨start, (expression options value counters).code⟩]

/-- Where the code of a statement and of all its parts stands. -/
def statementStretches
    (options : Options) :
    Stmt → Counters → Nat → List Stretch
  | .skip, _, start => [⟨start, []⟩]
  | .sequence first second, counters, start =>
      let before := statement options first counters
      ⟨start, (statement options (.sequence first second) counters).code⟩ ::
        (statementStretches options first counters start ++
          statementStretches options second before.next
            (start + before.code.length))
  | .conditional condition body, counters, start =>
      let test := expression options condition counters
      let head := conditionalHead test.cell (test.next.labels + 1)
      ⟨start,
        (statement options (.conditional condition body) counters).code⟩ ::
        (expressionStretches options condition counters start ++
          statementStretches options body test.next.addLabel
            (start + test.code.length + head.length))
  | .choice condition onTrue onFalse, counters, start =>
      let test := expression options condition counters
      let head := conditionalHead test.cell (test.next.labels + 1)
      let taken := statement options onTrue test.next.addLabel
      ⟨start,
        (statement options (.choice condition onTrue onFalse) counters).code⟩ ::
        (expressionStretches options condition counters start ++
          statementStretches options onTrue test.next.addLabel
            (start + test.code.length + head.length) ++
          statementStretches options onFalse taken.next
            (start + test.code.length + head.length + taken.code.length + 2))
  | .loop condition body, counters, start =>
      let test := expression options condition counters.addLabel
      let tested := jumpIfZero test.cell ⟨.endOfLoop, counters.labels + 1⟩
      ⟨start, (statement options (.loop condition body) counters).code⟩ ::
        (expressionStretches options condition counters.addLabel
            (start + (loopHead (counters.labels + 1)).length) ++
          statementStretches options body test.next
            (start + (loopHead (counters.labels + 1)).length +
              test.code.length + tested.length))
  | .assignment target value, counters, start =>
      ⟨start, (statement options (.assignment target value) counters).code⟩ ::
        expressionStretches options value counters (start + 2)
  | .evaluation value, counters, start =>
      expressionStretches options value counters start

section Stretches

variable
    {options : Options}
    {keeps : List Line → Prop}
    {code : List Line}
    {holds : Nat → Prop}
    (kept : Kept options keeps)
    (behind :
      ∀ {lines : List Line} {position : Nat},
        keeps lines → Placed code position lines → holds position →
          holds (position + lines.length))

include kept behind

theorem around_operand
    {value : Expr}
    {counters : Counters}
    {start : Nat}
    (placed : Placed code start (expression options value counters).code)
    (before : holds start) :
    Around code holds ⟨start, (expression options value counters).code⟩ :=
  ⟨placed, before, behind (kept.of_expression value counters) placed before⟩

theorem around_part
    {body : Stmt}
    {counters : Counters}
    {start : Nat}
    (placed : Placed code start (statement options body counters).code)
    (before : holds start) :
    Around code holds ⟨start, (statement options body counters).code⟩ :=
  ⟨placed, before, behind (kept.of_statement body counters) placed before⟩

/--
What holds around an expression, and is kept by its code, holds
around all its operands.
-/
theorem around_expression
    {value : Expr}
    {counters : Counters}
    {start : Nat}
    (own :
      Around code holds ⟨start, (expression options value counters).code⟩) :
    ∀ stretch ∈ expressionStretches options value counters start,
      Around code holds stretch := by
  induction value generalizing counters start with
  | absent | misplaced | literal lexeme | «variable» name =>
      exact List.forall_mem_singleton.mpr own
  | arithmetic operation left right leftAround rightAround
  | comparison relation left right leftAround rightAround =>
      have ⟨placed, before, _⟩ := own
      have leftOwn :=
        around_operand kept behind placed.append_left.append_left before
      have rightOwn :=
        around_operand kept behind placed.append_left.append_right leftOwn.2.2
      exact List.forall_mem_cons.mpr ⟨own, List.forall_mem_append.mpr
        ⟨leftAround leftOwn, rightAround rightOwn⟩⟩
  | modulo left right leftAround rightAround =>
      have ⟨placed, before, _⟩ := own
      have titled := placed.append_left.append_left
      have behindTitle := behind (kept.title _) titled.append_left before
      have leftOwn := around_operand kept behind titled.append_right behindTitle
      have rightPlaced := placed.append_left.append_right
      rw [List.length_append, ← Nat.add_assoc] at rightPlaced
      have rightOwn := around_operand kept behind rightPlaced leftOwn.2.2
      exact List.forall_mem_cons.mpr ⟨own, List.forall_mem_append.mpr
        ⟨leftAround leftOwn, rightAround rightOwn⟩⟩

/--
What holds around a statement, and is kept by its code, holds around
all its parts.
-/
theorem around_statement
    {body : Stmt}
    {counters : Counters}
    {start : Nat}
    (own : Around code holds ⟨start, (statement options body counters).code⟩) :
    ∀ stretch ∈ statementStretches options body counters start,
      Around code holds stretch := by
  have inExpression :
      ∀ {value : Expr} {counters : Counters} {start : Nat},
        Around code holds ⟨start, (expression options value counters).code⟩ →
          ∀ stretch ∈ expressionStretches options value counters start,
            Around code holds stretch :=
    around_expression kept behind
  induction body generalizing counters start with
  | skip =>
      exact List.forall_mem_singleton.mpr own
  | sequence first second firstAround secondAround =>
      have ⟨placed, before, _⟩ := own
      have firstOwn := around_part kept behind placed.append_left before
      have secondOwn := around_part kept behind placed.append_right firstOwn.2.2
      exact List.forall_mem_cons.mpr ⟨own, List.forall_mem_append.mpr
        ⟨firstAround firstOwn, secondAround secondOwn⟩⟩
  | conditional condition body bodyAround =>
      have ⟨placed, before, _⟩ := own
      have inFront := placed.append_left.append_left
      have testOwn := around_operand kept behind inFront.append_left before
      have behindHead :=
        behind (kept.conditionalStart _ _) inFront.append_right testOwn.2.2
      have bodyPlaced := placed.append_left.append_right
      rw [List.length_append, ← Nat.add_assoc] at bodyPlaced
      have bodyOwn := around_part kept behind bodyPlaced behindHead
      exact List.forall_mem_cons.mpr ⟨own, List.forall_mem_append.mpr
        ⟨inExpression testOwn, bodyAround bodyOwn⟩⟩
  | choice condition onTrue onFalse trueAround falseAround =>
      have ⟨placed, before, _⟩ := own
      have uptoFalse := placed.append_left
      have uptoTrue := uptoFalse.append_left.append_left
      have inFront := uptoTrue.append_left
      have testOwn := around_operand kept behind inFront.append_left before
      have behindHead :=
        behind (kept.conditionalStart _ _) inFront.append_right testOwn.2.2
      have truePlaced := uptoTrue.append_right
      rw [List.length_append, ← Nat.add_assoc] at truePlaced
      have trueOwn := around_part kept behind truePlaced behindHead
      have middlePlaced := uptoFalse.append_left.append_right
      rw [List.length_append, List.length_append, ← Nat.add_assoc,
        ← Nat.add_assoc] at middlePlaced
      have behindMiddle := behind (kept.otherBranch _) middlePlaced trueOwn.2.2
      have falsePlaced := uptoFalse.append_right
      rw [List.length_append, List.length_append, List.length_append,
        ← Nat.add_assoc, ← Nat.add_assoc, ← Nat.add_assoc] at falsePlaced
      have falseOwn := around_part kept behind falsePlaced behindMiddle
      exact List.forall_mem_cons.mpr ⟨own, List.forall_mem_append.mpr
        ⟨List.forall_mem_append.mpr ⟨inExpression testOwn, trueAround trueOwn⟩,
          falseAround falseOwn⟩⟩
  | loop condition body bodyAround =>
      have ⟨placed, before, _⟩ := own
      have uptoBody := placed.append_left
      have inFront := uptoBody.append_left
      have behindHead :=
        behind (kept.loopStart _) inFront.append_left.append_left before
      have testOwn :=
        around_operand kept behind inFront.append_left.append_right behindHead
      have jumpPlaced := inFront.append_right
      rw [List.length_append, ← Nat.add_assoc] at jumpPlaced
      have behindJump := behind (kept.loopTest _ _) jumpPlaced testOwn.2.2
      have bodyPlaced := uptoBody.append_right
      rw [List.length_append, List.length_append, ← Nat.add_assoc,
        ← Nat.add_assoc] at bodyPlaced
      have bodyOwn := around_part kept behind bodyPlaced behindJump
      exact List.forall_mem_cons.mpr ⟨own, List.forall_mem_append.mpr
        ⟨inExpression testOwn, bodyAround bodyOwn⟩⟩
  | assignment target value =>
      have ⟨placed, before, _⟩ := own
      have behindTitle :=
        behind (kept.title _) placed.append_left.append_left before
      have valueOwn :=
        around_operand kept behind placed.append_left.append_right behindTitle
      exact List.forall_mem_cons.mpr ⟨own, inExpression valueOwn⟩
  | evaluation value =>
      exact inExpression own

end Stretches

section Boolean

variable
    {options : Options}
    (isBoolean : options.comparison = .boolean)

theorem levelAfter_comparisonCode
    (relation : Relation)
    (left right result : Cell)
    (number : Nat) :
    levelAfter 0 (comparisonCode .boolean relation left right result number) =
      some 0 := by
  cases relation <;> rfl

theorem levelAfter_moduloCode
    (rounding : QuotientRounding)
    (left right quotient slot whole product result : Cell) :
    levelAfter 0
      (moduloCode rounding left right quotient slot whole product result) =
      some 0 := by
  cases rounding <;> rfl

include isBoolean

/-- Every piece of code leads from an empty stack to an empty stack. -/
theorem kept_level : Kept options fun lines => levelAfter 0 lines = some 0 where
  nil := rfl
  append := by
    intro first second firstLevel secondLevel
    rw [levelAfter_append, firstLevel, Option.bind_some, secondLevel]
  title _ := rfl
  zero _ _ := rfl
  literal _ _ := rfl
  copy _ _ := rfl
  arithmetic _ _ _ _ := rfl
  modulo left right quotient number whole product result :=
    levelAfter_moduloCode options.modulo left right quotient (.slot number)
      whole product result
  comparison := by
    rw [isBoolean]
    exact levelAfter_comparisonCode
  conditionalStart _ _ := rfl
  otherBranch _ := rfl
  conditionalEnd _ := rfl
  choiceEnd _ := rfl
  loopStart _ := rfl
  loopTest _ _ := rfl
  loopEnd _ := rfl
  assign _ _ := rfl

/-- In the code of an expression every jump has a condition. -/
theorem resumed_expression
    (value : Expr)
    (counters : Counters) :
    Resumed (expression options value counters).code := by
  induction value generalizing counters with
  | absent =>
      exact .of_conditional
        (by simp [expression, zeroOperand, Line.control?, Line.code])
  | misplaced =>
      exact .of_conditional
        (by simp [expression, zeroOperand, Line.control?, Line.code])
  | literal lexeme =>
      exact .of_conditional
        (by simp [expression, literalOperand, Line.control?, Line.code])
  | «variable» name =>
      exact .of_conditional
        (by simp [expression, variableOperand, Line.control?, Line.code])
  | arithmetic operation left right leftResumed rightResumed =>
      refine ((leftResumed _).append (rightResumed _)).append
        (.of_conditional ?_)
      simp [arithmeticCode, combineCode, Line.control?, Line.code]
  | modulo left right leftResumed rightResumed =>
      have title : Resumed [.blank, .comment "--- Modulo (left % right) ---"] :=
        .of_conditional (by simp [Line.control?])
      refine ((title.append (leftResumed _)).append (rightResumed _)).append
        (.of_conditional ?_)
      cases options.modulo <;>
        simp [moduloCode, combineCode, roundCode, Line.control?, Line.code]
  | comparison relation left right leftResumed rightResumed =>
      refine ((leftResumed _).append (rightResumed _)).append
        (.of_conditional ?_)
      rw [isBoolean]
      cases relation <;>
        simp [comparisonCode, flagsOfTop, failsUnsigned, Line.control?,
          Line.code]

/-- The code of a statement is resumed behind its jumps. -/
theorem resumed_statement
    (body : Stmt)
    (counters : Counters) :
    Resumed (statement options body counters).code := by
  have expressionResumed := resumed_expression isBoolean
  have jumpResumed : ∀ cell target, Resumed (jumpIfZero cell target) :=
    fun _ _ =>
      .of_conditional
        (by simp [jumpIfZero, flagsOfTop, Line.control?, Line.code])
  have headResumed : ∀ cell number, Resumed (conditionalHead cell number) :=
    fun _ _ =>
      (Resumed.of_conditional (by simp [Line.control?])).append
        (jumpResumed _ _)
  induction body generalizing counters with
  | skip =>
      exact .of_conditional (by simp [statement])
  | sequence first second firstResumed secondResumed =>
      exact (firstResumed _).append (secondResumed _)
  | conditional condition body bodyResumed =>
      refine (((expressionResumed _ _).append (headResumed _ _)).append
        (bodyResumed _)).append (.of_conditional ?_)
      simp [Line.control?]
  | choice condition onTrue onFalse trueResumed falseResumed =>
      let test := expression options condition counters
      have front :=
        ((expressionResumed condition counters).append
          (headResumed test.cell (test.next.labels + 1))).append
            (trueResumed test.next.addLabel)
      have jumps :
          .code (.jump .equal ⟨.elseBranch, test.next.labels + 1⟩) ∈
            test.code ++ conditionalHead test.cell (test.next.labels + 1) ++
              (statement options onTrue test.next.addLabel).code := by
        simp [conditionalHead, jumpIfZero]
      refine ((front.jump jumps rfl (by decide) _).append
        (falseResumed _)).append (.of_conditional ?_)
      simp [Line.control?]
  | loop condition body bodyResumed =>
      let test := expression options condition counters.addLabel
      have start : Resumed (loopHead (counters.labels + 1)) :=
        .of_conditional (by simp [loopHead, Line.control?])
      have front :=
        ((start.append (expressionResumed condition counters.addLabel)).append
          (jumpResumed test.cell ⟨.endOfLoop, counters.labels + 1⟩)).append
            (bodyResumed test.next)
      have jumps :
          .code (.jump .equal ⟨.endOfLoop, counters.labels + 1⟩) ∈
            loopHead (counters.labels + 1) ++ test.code ++
              jumpIfZero test.cell ⟨.endOfLoop, counters.labels + 1⟩ ++
              (statement options body test.next).code := by
        simp [jumpIfZero]
      exact front.jump jumps rfl (by decide) _
  | assignment target value =>
      refine ((Resumed.of_conditional ?_).append (expressionResumed _ _)).append
        (.of_conditional ?_)
      · simp [Line.control?]
      · simp [assignCode, Line.control?]
  | evaluation value =>
      exact expressionResumed value counters

end Boolean

end Compile

namespace Program

/-- Where the code of every statement and expression of a program stands. -/
def stretches
    (program : Program)
    (options : Compile.Options) :
    List Stretch :=
  Compile.statementStretches options (Compile.statementOf program.tree) .start
    Compile.codeHeader.length

theorem placed_header
    (program : Program)
    (options : Compile.Options) :
    Placed (program.listing options).code 0 Compile.codeHeader :=
  ⟨_, (List.append_assoc _ _ _).symm⟩

theorem placed_body
    (program : Program)
    (options : Compile.Options) :
    Placed (program.listing options).code Compile.codeHeader.length
      (Compile.statement options (Compile.statementOf program.tree)
        .start).code :=
  placed_append Compile.codeHeader _ Compile.codeFooter

/--
What holds at the start and is kept by all code holds around all stretches.
-/
theorem around_stretches
    (program : Program)
    {options : Compile.Options}
    {keeps : List Line → Prop}
    {holds : Nat → Prop}
    (kept : Compile.Kept options keeps)
    (behind :
      ∀ {lines : List Line} {position : Nat},
        keeps lines → Placed (program.listing options).code position lines →
          holds position → holds (position + lines.length))
    (header : keeps Compile.codeHeader)
    (start : holds 0) :
    ∀ stretch ∈ program.stretches options,
      Around (program.listing options).code holds stretch := by
  have behindHeader := behind header (program.placed_header options) start
  rw [Nat.zero_add] at behindHeader
  exact Compile.around_statement kept behind
    (Compile.around_part kept behind (program.placed_body options) behindHeader)

section Boolean

variable
    (program : Program)
    {options : Compile.Options}
    (isBoolean : options.comparison = .boolean)

include isBoolean

theorem levelAfter_code :
    levelAfter 0 (program.listing options).code = some 0 := by
  have header : levelAfter 0 Compile.codeHeader = some 0 :=
    rfl
  have footer : levelAfter 0 Compile.codeFooter = some 0 :=
    rfl
  simp only [listing, Compile.listing, Compile.listingAround, levelAfter_append,
    header, footer, (Compile.kept_level isBoolean).of_statement,
    Option.bind_some]

theorem resumed_code : Resumed (program.listing options).code := by
  have header : Resumed Compile.codeHeader :=
    .of_conditional (by simp [Compile.codeHeader, Line.control?])
  have footer : Resumed Compile.codeFooter :=
    .of_conditional (by simp [Compile.codeFooter, Line.control?])
  exact (header.append (Compile.resumed_statement isBoolean _ _)).append footer

/--
The stack is empty around every statement and every expression of the program.
-/
theorem emptyAround_stretches :
    ∀ stretch ∈ program.stretches options,
      EmptyAround (program.listing options).code
        (depthAt (program.listing options).code) stretch := by
  have behind :
      ∀ {lines : List Line} {position : Nat},
        levelAfter 0 lines = some 0 →
          Placed (program.listing options).code position lines →
          depthAt (program.listing options).code position = 0 →
            depthAt (program.listing options).code (position + lines.length) =
              0 := by
    intro lines position leads placed empty
    exact depthAt_behind (program.levelAfter_code isBoolean) placed empty leads
  exact program.around_stretches (Compile.kept_level isBoolean) behind rfl
    (depthAt_zero _)

end Boolean

/--
Where comparisons yield one or zero, every line of a compiled program is reached
with one depth of the register stack.
-/
theorem stack_disciplined
    (program : Program)
    (modulo : Compile.QuotientRounding)
    (literals : Compile.LiteralForm) :
    ∃ depth : Nat → Nat,
      Disciplined (program.listing ⟨.boolean, modulo, literals⟩).code
        (program.stretches ⟨.boolean, modulo, literals⟩) depth := by
  let options : Compile.Options := ⟨.boolean, modulo, literals⟩
  have level : levelAfter 0 (program.listing options).code = some 0 :=
    program.levelAfter_code rfl
  refine ⟨depthAt (program.listing options).code, ?_, ?_, ?_, ?_, ?_, ?_⟩
  · intro position inside
    exact (program.resumed_code rfl).reachable
      (program.nested_code options).nodup_labels inside
  · intro passed position walk
    exact depthAfter_walk level walk
  · intro position line lineAt
    rw [depthAfter_line level lineAt, Option.isSome_some]
  · exact depthAt_le level (by decide)
  · intro position label labelAt
    exact depthAt_control level labelAt rfl
  · exact program.emptyAround_stretches rfl

end Program

end Coprocessor
