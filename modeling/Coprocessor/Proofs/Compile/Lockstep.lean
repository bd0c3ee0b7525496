import Coprocessor.Proofs.Compile.Operands

namespace Coprocessor

open Assembly

/-!
# What each option changes

Two compilations of one program with different options run in lockstep: after
every construct they have numbered the same cells, slots and labels. What they
declare and emit is related piece by piece. Only three pieces depend on the
options at all, which are the declaration of a literal, the conversion of a
quotient and the end of a comparison, so a relation that is carried over from
the pieces to lists of them has to be checked for these three. The relation
between the lines carries a number that every modulo raises by one.
-/

/-- The number of modulos in an expression. -/
def Expr.moduloCount : Expr → Nat
  | .absent | .misplaced | .literal _ | .variable _ => 0
  | .arithmetic _ left right | .comparison _ left right =>
      left.moduloCount + right.moduloCount
  | .modulo left right => left.moduloCount + right.moduloCount + 1

/-- The number of modulos in a statement. -/
def Stmt.moduloCount : Stmt → Nat
  | .skip => 0
  | .sequence first second => first.moduloCount + second.moduloCount
  | .conditional condition body | .loop condition body =>
      condition.moduloCount + body.moduloCount
  | .choice condition onTrue onFalse =>
      condition.moduloCount + onTrue.moduloCount + onFalse.moduloCount
  | .assignment _ value | .evaluation value => value.moduloCount

namespace Assembly

/-- Lines that convert a quotient to an integer or announce it. -/
def Line.converts : Line → Bool
  | .instr (.storeInteger _) _ | .instr (.storeControl _) _
  | .instr (.loadControl _) _
  | .instr (.loadAccumulator _) _ | .instr (.storeAccumulator _) _
  | .instr (.maskAccumulator _) _ | .instr (.raiseAccumulator _) _ => true
  | .remark text =>
      ["quotient -> int (round toward -inf)",
        "quotient -> int (current rounding mode)"].contains text
  | _ => false

/--
The second code is the first one without the change of the control word
around each conversion, and with another remark there. All other lines are
the same, and no integer is stored but in a conversion. The number is that
of the conversions.
-/
inductive Reconverted : Nat → List Line → List Line → Prop where
  | nil :
      Reconverted 0 [] []
  | line
      {count : Nat}
      {line : Line}
      {floor ambient : List Line} :
      line.converts = false →
      Reconverted count floor ambient →
      Reconverted count (line :: floor) (line :: ambient)
  | conversion
      {count : Nat}
      (quotient slot : Cell)
      {floor ambient : List Line} :
      Reconverted count floor ambient →
      Reconverted (count + 1)
        (.remark "quotient -> int (round toward -inf)" ::
          .code (.load quotient) ::
          .code (.storeControl .savedControl) ::
          .code (.loadAccumulator .savedControl) ::
          .code (.maskAccumulator 0xF3FF) ::
          .code (.raiseAccumulator 0x0400) ::
          .code (.storeAccumulator .floorControl) ::
          .code (.loadControl .floorControl) ::
          .code (.storeInteger slot) ::
          .code (.loadControl .savedControl) :: floor)
        (.remark "quotient -> int (current rounding mode)" ::
          .code (.load quotient) ::
          .code (.storeInteger slot) :: ambient)

namespace Reconverted

theorem of_plain
    {lines : List Line}
    (plain : ∀ line ∈ lines, line.converts = false) :
    Reconverted 0 lines lines := by
  induction lines with
  | nil =>
      exact .nil
  | cons line rest inductionHypothesis =>
      obtain ⟨linePlain, restPlain⟩ := List.forall_mem_cons.mp plain
      exact .line linePlain (inductionHypothesis restPlain)

theorem append
    {count laterCount : Nat}
    {floor ambient laterFloor laterAmbient : List Line}
    (first : Reconverted count floor ambient)
    (second : Reconverted laterCount laterFloor laterAmbient) :
    Reconverted (count + laterCount) (floor ++ laterFloor)
      (ambient ++ laterAmbient) := by
  induction first with
  | nil =>
      rwa [Nat.zero_add]
  | line plain _ inductionHypothesis =>
      exact .line plain inductionHypothesis
  | conversion quotient slot _ inductionHypothesis =>
      rw [Nat.add_right_comm]
      exact .conversion quotient slot inductionHypothesis

end Reconverted

/-- Two lines that differ at most in what a literal holds at first. -/
inductive Line.SameButInitial : Line → Line → Prop where
  | same (line : Line) :
      Line.SameButInitial line line
  | literal (number : Nat) (first second : String) :
      Line.SameButInitial (.declare ⟨.literal number, .real first⟩)
        (.declare ⟨.literal number, .real second⟩)

/-- Whether a cell is not one of the two for the control word. -/
def Cell.isUncontrolled (cell : Cell) : Bool :=
  cell != .savedControl && cell != .floorControl

end Assembly

namespace Compile

/--
A relation between lists that holds of plain pieces and is carried
over to longer lists.
-/
structure Additive
    {Item : Type}
    (plain : Item → Prop)
    (related : List Item → List Item → Prop) :
    Prop where
  of_plain :
    ∀ items, (∀ item ∈ items, plain item) → related items items
  append :
    ∀ {first second laterFirst laterSecond}, related first second →
      related laterFirst laterSecond →
        related (first ++ laterFirst) (second ++ laterSecond)

/--
The same with a number, which is zero for plain pieces and adds up over lists.
-/
structure Counted
    {Item : Type}
    (plain : Item → Prop)
    (related : Nat → List Item → List Item → Prop) :
    Prop where
  of_plain :
    ∀ items, (∀ item ∈ items, plain item) → related 0 items items
  append :
    ∀ {count laterCount first second laterFirst laterSecond},
      related count first second → related laterCount laterFirst laterSecond →
        related (count + laterCount) (first ++ laterFirst)
          (second ++ laterSecond)

namespace Counted

variable
    {Item : Type}
    {plain : Item → Prop}
    {related : Nat → List Item → List Item → Prop}
    (counted : Counted plain related)
    {count : Nat}
    {first second items : List Item}
    (same : related count first second)
    (allPlain : ∀ item ∈ items, plain item)

include counted same allPlain

theorem plain_append : related count (items ++ first) (items ++ second) := by
  have both := counted.append (counted.of_plain items allPlain) same
  rwa [Nat.zero_add] at both

theorem append_plain : related count (first ++ items) (second ++ items) :=
  counted.append same (counted.of_plain items allPlain)

end Counted

/--
What two options make of the same piece is related, for all pieces
that depend on them.
-/
structure Agrees
    (first second : Options)
    (dataRelated : List Declaration → List Declaration → Prop)
    (codeRelated : Nat → List Line → List Line → Prop) :
    Prop where
  data :
    Additive (fun _ => True) dataRelated
  code :
    Counted (fun line => line.converts = false) codeRelated
  literals :
    ∀ number lexeme,
      dataRelated [declareLiteral number (literalInitial first.literals lexeme)]
        [declareLiteral number (literalInitial second.literals lexeme)]
  conversions :
    ∀ quotient slot,
      codeRelated 1 (roundCode first.modulo quotient slot)
        (roundCode second.modulo quotient slot)
  comparisons :
    ∀ relation left right result number,
      codeRelated 0
        (comparisonCode first.comparison relation left right result number)
        (comparisonCode second.comparison relation left right result number)

theorem converts_combineCode
    (operation : Arithmetic)
    (left right result : Cell) :
    ∀ line ∈ combineCode operation left right result,
      line.converts = false := by
  simp [combineCode, Line.code, Line.converts]

theorem converts_jumpIfZero
    (cell : Cell)
    (target : Label) :
    ∀ line ∈ jumpIfZero cell target, line.converts = false := by
  simp [jumpIfZero, flagsOfTop, Line.code, Line.converts]

theorem converts_conditionalHead
    (cell : Cell)
    (number : Nat) :
    ∀ line ∈ conditionalHead cell number, line.converts = false :=
  List.forall_mem_append.mpr ⟨by simp [Line.converts], converts_jumpIfZero _ _⟩

section Lockstep

variable
    (dataRelated : List Declaration → List Declaration → Prop)
    (codeRelated : Nat → List Line → List Line → Prop)

/--
Fragments with the same counters behind them, and with related
declarations and lines.
-/
structure Lockstep
    (modulos : Nat)
    (first second : Fragment) :
    Prop where
  next : first.next = second.next
  data : dataRelated first.data second.data
  code : codeRelated modulos first.code second.code

/-- Operands in lockstep that also have their values in the same cell. -/
structure OperandLockstep
    (modulos : Nat)
    (first second : Operand) :
    Prop extends
    Lockstep dataRelated codeRelated modulos first.toFragment
      second.toFragment where
  cell : first.cell = second.cell

variable
    {dataRelated codeRelated}
    {first second : Options}
    (agrees : Agrees first second dataRelated codeRelated)

include agrees

theorem lockstep_zeroOperand
    (reason : String)
    (counters : Counters) :
    OperandLockstep dataRelated codeRelated 0 (zeroOperand reason counters)
      (zeroOperand reason counters) where
  next := rfl
  data := agrees.data.of_plain _ fun _ _ => trivial
  code :=
    agrees.code.of_plain _ (by simp [zeroOperand, Line.code, Line.converts])
  cell := rfl

theorem lockstep_literalOperand
    (lexeme : String)
    (counters : Counters) :
    OperandLockstep dataRelated codeRelated 0
      (literalOperand first.literals lexeme counters)
      (literalOperand second.literals lexeme counters) where
  next := rfl
  data :=
    agrees.data.append
      (agrees.data.of_plain [declareTemporary (counters.cells + 1)] fun _ _ =>
        trivial)
      (agrees.literals (counters.cells + 2) lexeme)
  code :=
    agrees.code.of_plain _ (by simp [literalOperand, Line.code, Line.converts])
  cell := rfl

theorem lockstep_variableOperand
    (name : String)
    (counters : Counters) :
    OperandLockstep dataRelated codeRelated 0 (variableOperand name counters)
      (variableOperand name counters) where
  next := rfl
  data := agrees.data.of_plain _ fun _ _ => trivial
  code :=
    agrees.code.of_plain _ (by simp [variableOperand, Line.code, Line.converts])
  cell := rfl

/-- Apart from the conversion the code of a modulo depends on no option. -/
theorem related_moduloCode
  (left right quotient slot whole product result : Cell) :
    codeRelated 1
      (moduloCode first.modulo left right quotient slot whole product result)
      (moduloCode second.modulo left right quotient slot whole product
        result) := by
  have divides :
      ∀ line ∈ Line.remark "quotient = left / right" ::
          combineCode .divide left right quotient, line.converts = false :=
    List.forall_mem_cons.mpr
      ⟨by simp [Line.converts], converts_combineCode _ _ _ _⟩
  have converts :=
    agrees.code.plain_append (agrees.conversions quotient slot) divides
  refine agrees.code.append_plain (agrees.code.append_plain
    (agrees.code.append_plain converts ?_) (converts_combineCode _ _ _ _)) ?_
  · simp [Line.code, Line.converts]
  · simp [Line.code, Line.converts]

section Operations

variable
    {modulos laterModulos : Nat}
    {left right otherLeft otherRight : Operand}
    (leftAlike : OperandLockstep dataRelated codeRelated modulos left otherLeft)
    (rightAlike :
      OperandLockstep dataRelated codeRelated laterModulos right otherRight)

include leftAlike rightAlike

theorem lockstep_arithmeticOperand (operation : Arithmetic) :
    OperandLockstep dataRelated codeRelated (modulos + laterModulos)
      (arithmeticOperand operation left right)
      (arithmeticOperand operation otherLeft otherRight) := by
  have operands := agrees.code.append leftAlike.code rightAlike.code
  simp only [arithmeticOperand, leftAlike.cell, rightAlike.cell,
    rightAlike.next]
  exact
    { next := rfl
      data :=
        agrees.data.append (agrees.data.append leftAlike.data rightAlike.data)
        (agrees.data.of_plain _ fun _ _ => trivial)
      code := agrees.code.append_plain operands
        (by simp [arithmeticCode, combineCode, Line.code, Line.converts])
      cell := rfl }

theorem lockstep_moduloOperand :
    OperandLockstep dataRelated codeRelated (modulos + laterModulos + 1)
      (moduloOperand first.modulo left right)
      (moduloOperand second.modulo otherLeft otherRight) := by
  have titled :=
    agrees.code.plain_append leftAlike.code
      (show ∀ line ∈ [Line.blank, .comment "--- Modulo (left % right) ---"],
          line.converts = false by
        simp [Line.converts])
  simp only [moduloOperand, leftAlike.cell, rightAlike.cell, rightAlike.next]
  exact
    { next := rfl
      data :=
        agrees.data.append (agrees.data.append leftAlike.data rightAlike.data)
        (agrees.data.of_plain _ fun _ _ => trivial)
      code := agrees.code.append (agrees.code.append titled rightAlike.code)
        (related_moduloCode agrees ..)
      cell := rfl }

theorem lockstep_comparisonOperand (relation : Relation) :
    OperandLockstep dataRelated codeRelated (modulos + laterModulos)
      (comparisonOperand first.comparison relation left right)
      (comparisonOperand second.comparison relation otherLeft otherRight) := by
  have operands := agrees.code.append leftAlike.code rightAlike.code
  have compared :=
    agrees.code.append operands
      (agrees.comparisons relation otherLeft.cell otherRight.cell
        (.temporary (otherRight.next.cells + 1)) (otherRight.next.labels + 1))
  simp only [comparisonOperand, leftAlike.cell, rightAlike.cell,
    rightAlike.next]
  exact
    { next := rfl
      data :=
        agrees.data.append (agrees.data.append leftAlike.data rightAlike.data)
        (agrees.data.of_plain _ fun _ _ => trivial)
      code := compared
      cell := rfl }

end Operations

/-- Two compilations of an expression from the same counters run in lockstep. -/
theorem lockstep_expression
    (value : Expr)
    {counters others : Counters}
    (same : counters = others) :
    OperandLockstep dataRelated codeRelated value.moduloCount
      (expression first value counters) (expression second value others) := by
  induction value generalizing counters others with
  | absent | misplaced =>
      subst same
      exact lockstep_zeroOperand agrees _ counters
  | literal lexeme =>
      subst same
      exact lockstep_literalOperand agrees lexeme counters
  | «variable» name =>
      subst same
      exact lockstep_variableOperand agrees name counters
  | arithmetic operation left right leftAlike rightAlike =>
      exact lockstep_arithmeticOperand agrees (leftAlike same)
        (rightAlike (leftAlike same).next) operation
  | modulo left right leftAlike rightAlike =>
      exact lockstep_moduloOperand agrees (leftAlike same)
        (rightAlike (leftAlike same).next)
  | comparison relation left right leftAlike rightAlike =>
      exact lockstep_comparisonOperand agrees (leftAlike same)
        (rightAlike (leftAlike same).next) relation

/-- Two compilations of a statement from the same counters run in lockstep. -/
theorem lockstep_statement
    (body : Stmt)
    {counters others : Counters}
    (same : counters = others) :
    Lockstep dataRelated codeRelated body.moduloCount
      (statement first body counters) (statement second body others) := by
  induction body generalizing counters others with
  | skip =>
      exact ⟨same, agrees.data.of_plain [] (List.forall_mem_nil _),
        agrees.code.of_plain [] (List.forall_mem_nil _)⟩
  | sequence front back frontAlike backAlike =>
      have before := frontAlike same
      have after := backAlike before.next
      exact ⟨after.next, agrees.data.append before.data after.data,
        agrees.code.append before.code after.code⟩
  | conditional condition body bodyAlike =>
      have test := lockstep_expression agrees condition same
      have taken := bodyAlike (congrArg Counters.addLabel test.next)
      simp only [statement, test.cell, test.next] at taken ⊢
      refine ⟨taken.next, agrees.data.append test.data taken.data, ?_⟩
      refine agrees.code.append_plain (agrees.code.append
        (agrees.code.append_plain test.code (converts_conditionalHead _ _))
        taken.code) ?_
      simp [Line.converts]
  | choice condition onTrue onFalse trueAlike falseAlike =>
      have test := lockstep_expression agrees condition same
      have taken := trueAlike (congrArg Counters.addLabel test.next)
      have other := falseAlike taken.next
      simp only [statement, test.cell, test.next] at taken other ⊢
      refine ⟨other.next,
        agrees.data.append (agrees.data.append test.data taken.data) other.data,
        ?_⟩
      refine agrees.code.append_plain
        (agrees.code.append (agrees.code.append_plain
        (agrees.code.append (agrees.code.append_plain test.code
          (converts_conditionalHead _ _)) taken.code) ?_) other.code) ?_
      · simp [Line.code, Line.converts]
      · simp [Line.converts]
  | loop condition body bodyAlike =>
      subst same
      have test :=
        lockstep_expression agrees condition (Eq.refl counters.addLabel)
      have pass := bodyAlike test.next
      simp only [statement, test.cell]
      refine ⟨pass.next, agrees.data.append test.data pass.data, ?_⟩
      refine agrees.code.append_plain
        (agrees.code.append
          (agrees.code.append_plain
            (agrees.code.plain_append test.code ?_) (converts_jumpIfZero _ _))
          pass.code) ?_
      · simp [loopHead, Line.converts]
      · simp [loopTail, Line.code, Line.converts]
  | assignment target value =>
      have result := lockstep_expression agrees value same
      simp only [statement, result.cell]
      refine ⟨result.next, result.data, ?_⟩
      refine agrees.code.append_plain
        (agrees.code.plain_append result.code ?_) ?_
      · simp [Line.converts]
      · simp [assignCode, Line.converts]
  | evaluation value =>
      exact (lockstep_expression agrees value same).toLockstep

end Lockstep

section Agreements

variable
    (comparison : ComparisonResult)
    (modulo : QuotientRounding)
    (literals : LiteralForm)

/-- What a comparison leaves makes no difference to what is declared. -/
theorem agrees_comparison (first second : ComparisonResult) :
    Agrees ⟨first, modulo, literals⟩ ⟨second, modulo, literals⟩ Eq
      fun _ _ _ => True where
  data := ⟨fun _ _ => rfl, fun front back => by rw [front, back]⟩
  code := ⟨fun _ _ => trivial, fun _ _ => trivial⟩
  literals _ _ := rfl
  conversions _ _ := trivial
  comparisons _ _ _ _ _ := trivial

/--
How literals are written makes no difference but to what they hold at first.
-/
theorem agrees_literals (first second : LiteralForm) :
    Agrees ⟨comparison, modulo, first⟩ ⟨comparison, modulo, second⟩
      (fun one other =>
        List.Forall₂ Line.SameButInitial (one.map .declare)
          (other.map .declare))
      (fun _ => Eq) where
  data :=
    { of_plain := fun _ _ => List.forall₂_same.mpr fun line _ => .same line
      append := by
        intro one other laterOne laterOther front back
        rw [List.map_append, List.map_append]
        exact List.rel_append front back }
  code := ⟨fun _ _ => rfl, fun front back => by rw [front, back]⟩
  literals number lexeme := .cons (.literal number _ _) .nil
  conversions _ _ := rfl
  comparisons _ _ _ _ _ := rfl

theorem converts_comparisonCode
    (relation : Relation)
    (left right result : Cell)
    (number : Nat) :
    ∀ line ∈ comparisonCode comparison relation left right result number,
      line.converts = false := by
  cases comparison <;>
    simp [comparisonCode, flagsOfTop, Line.code, Line.converts]

/-- How quotients are rounded makes no difference but to the conversions. -/
theorem agrees_modulo :
    Agrees ⟨comparison, .floor, literals⟩ ⟨comparison, .ambient, literals⟩ Eq
      Reconverted where
  data := ⟨fun _ _ => rfl, fun front back => by rw [front, back]⟩
  code := ⟨fun _ => .of_plain, .append⟩
  literals _ _ := rfl
  conversions quotient slot := .conversion quotient slot .nil
  comparisons relation left right result number :=
    .of_plain
      (converts_comparisonCode comparison relation left right result number)

/--
No option makes a difference to what cells and labels there are, the
control word apart.
-/
theorem agrees_names (first second : Options) :
    Agrees first second
      (fun one other => one.map Declaration.cell = other.map Declaration.cell)
      (fun _ one other =>
        labels one = labels other ∧
          (operandCells one).filter Cell.isUncontrolled =
            (operandCells other).filter Cell.isUncontrolled) where
  data :=
    ⟨fun _ _ => rfl,
      fun front back => by rw [List.map_append, List.map_append, front, back]⟩
  code :=
    { of_plain := fun _ _ => ⟨rfl, rfl⟩
      append := by
        intro _ _ one other laterOne laterOther front back
        simp only [labels_append, operandCells_append, List.filter_append,
          front.1, front.2, back.1, back.2, and_self] }
  literals _ _ := rfl
  conversions quotient slot := by
    cases first.modulo <;> cases second.modulo <;> exact ⟨rfl, rfl⟩
  comparisons relation left right result number := by
    rw [operandCells_comparisonCode, operandCells_comparisonCode]
    cases first.comparison <;> cases second.comparison <;> exact ⟨rfl, rfl⟩

end Agreements

end Compile

namespace Program

/--
Every option keeps to its own part of a listing. What comparisons leave concerns
the code only; how literals are written concerns only what literals hold at
first; how quotients are rounded concerns two declarations and one conversion in
the code of every modulo. No option changes which cells and labels there are,
apart from the two cells for the control word.
-/
structure OptionsApart (program : Program) : Prop where
  comparisonData :
    ∀ first second modulo literals,
      (program.listing ⟨first, modulo, literals⟩).data =
        (program.listing ⟨second, modulo, literals⟩).data
  literalsCode :
    ∀ comparison modulo first second,
      (program.listing ⟨comparison, modulo, first⟩).code =
        (program.listing ⟨comparison, modulo, second⟩).code
  literalsData :
    ∀ comparison modulo first second,
      List.Forall₂ Line.SameButInitial
        (program.listing ⟨comparison, modulo, first⟩).data
        (program.listing ⟨comparison, modulo, second⟩).data
  moduloData :
    ∀ comparison literals, ∃ before after,
      (program.listing ⟨comparison, .floor, literals⟩).data =
        before ++
          [.declare ⟨.savedControl, .controlWord⟩,
            .declare ⟨.floorControl, .controlWord⟩] ++
          after ∧
      (program.listing ⟨comparison, .ambient, literals⟩).data = before ++ after
  moduloCode :
    ∀ comparison literals,
      Reconverted (Compile.statementOf program.tree).moduloCount
        (program.listing ⟨comparison, .floor, literals⟩).code
        (program.listing ⟨comparison, .ambient, literals⟩).code
  names :
    ∀ first second,
      (declaredNames (program.listing first).data).filter
          (fun name => name != "@cwSave" && name != "@cwFloor") =
        (declaredNames (program.listing second).data).filter
          (fun name => name != "@cwSave" && name != "@cwFloor")
  operands :
    ∀ first second,
      (operandCells (program.listing first).code).filter Cell.isUncontrolled =
        (operandCells (program.listing second).code).filter Cell.isUncontrolled
  labels :
    ∀ first second,
      labels (program.listing first).code = labels (program.listing second).code

section Related

variable
    (program : Program)
    {first second : Compile.Options}
    {dataRelated : List Declaration → List Declaration → Prop}
    {codeRelated : Nat → List Line → List Line → Prop}
    (agrees : Compile.Agrees first second dataRelated codeRelated)

include agrees

theorem lockstep_fragment :
    Compile.Lockstep dataRelated codeRelated
      (Compile.statementOf program.tree).moduloCount
      (program.fragment first) (program.fragment second) :=
  Compile.lockstep_statement agrees (Compile.statementOf program.tree) rfl

theorem related_code :
    codeRelated (Compile.statementOf program.tree).moduloCount
      (program.listing first).code (program.listing second).code := by
  have body := (program.lockstep_fragment agrees).code
  refine agrees.code.append_plain (agrees.code.plain_append body ?_) ?_
  · simp [Compile.codeHeader, Line.converts]
  · simp [Compile.codeFooter, Line.converts]

end Related

/-- Every option keeps to its own part of the listing of every program. -/
theorem options_apart (program : Program) : program.OptionsApart where
  comparisonData first second modulo literals := by
    have same :=
      (program.lockstep_fragment
        (Compile.agrees_comparison modulo literals first second)).data
    simp only [listing, Compile.listing, Compile.listingAround]
    rw [← fragment, ← fragment, same]
  literalsCode comparison modulo first second :=
    program.related_code
      (Compile.agrees_literals comparison modulo first second)
  literalsData comparison modulo first second := by
    have related :=
      (program.lockstep_fragment
        (Compile.agrees_literals comparison modulo first second)).data
    simp only [listing, Compile.listing, Compile.listingAround, List.map_append]
    rw [← fragment, ← fragment]
    have same :
        ∀ lines : List Line, List.Forall₂ Line.SameButInitial lines lines :=
      fun lines => List.forall₂_same.mpr fun line _ => .same line
    exact List.rel_append (same _) (List.rel_append (same _) related)
  moduloData comparison literals := by
    have same :=
      (program.lockstep_fragment
        (Compile.agrees_modulo comparison literals)).data
    refine ⟨Compile.dataHeader ++
        program.symbols.symbols.map
          (fun symbol => .declare (Compile.declareSymbol symbol)) ++
        [.blank] ++ Compile.scratchDeclarations.map .declare,
      (program.fragment ⟨comparison, .ambient, literals⟩).data.map .declare, ?_,
      ?_⟩
    · rw [← same]
      simp [listing, Compile.listing, Compile.listingAround,
        Compile.controlDeclarations, fragment]
    · simp [listing, Compile.listing, Compile.listingAround,
        Compile.controlDeclarations, fragment]
  moduloCode comparison literals :=
    program.related_code (Compile.agrees_modulo comparison literals)
  names first second := by
    have sameCells :=
      (program.lockstep_fragment (Compile.agrees_names first second)).data
    have sameNames :
        (program.fragment first).data.map (·.cell.name) =
          (program.fragment second).data.map (·.cell.name) := by
      have mapped := congrArg (List.map Cell.name) sameCells
      rwa [List.map_map, List.map_map] at mapped
    have fixed :
        ∀ modulo,
          ((Compile.controlDeclarations modulo).map (·.cell.name)).filter
            (fun name => name != "@cwSave" && name != "@cwFloor") = [] := by
      intro modulo
      cases modulo <;> decide
    simp only [declaredNames_data, List.map_append, List.filter_append, fixed,
      sameNames]
  operands first second :=
    (program.related_code (Compile.agrees_names first second)).2
  labels first second :=
    (program.related_code (Compile.agrees_names first second)).1

-- The seven lines of a conversion and the two declarations that the
-- rounding decides on.
example :
    ([.code (.storeControl .savedControl),
      .code (.loadAccumulator .savedControl),
      .code (.maskAccumulator 0xF3FF), .code (.raiseAccumulator 0x0400),
      .code (.storeAccumulator .floorControl),
      .code (.loadControl .floorControl),
      .code (.loadControl .savedControl),
      .declare ⟨.savedControl, .controlWord⟩,
      .declare ⟨.floorControl, .controlWord⟩] : List Line).map Line.render =
    ["\tFSTCW [@cwSave]", "\tMOV AX,[@cwSave]", "\tAND AX,0F3FFh",
      "\tOR AX,0400h",
      "\tMOV [@cwFloor],AX", "\tFLDCW [@cwFloor]", "\tFLDCW [@cwSave]",
      "@cwSave DW 0",
      "@cwFloor DW 0"] := by
  decide

end Program

end Coprocessor
