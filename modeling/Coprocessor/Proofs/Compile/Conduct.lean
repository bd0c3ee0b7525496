import Coprocessor.Proofs.Compile.Evaluation
import Coprocessor.Proofs.Machine.Moves

namespace Coprocessor.Compile

open Assembly Machine

/-!
# Evaluating expressions on every way

What is asked of the machine is said once: how it moves, what its numbers mean,
which numbers may be left deep on its stack, and what the code of a comparison
does. The code of an expression then leaves the value of the expression in its
temporary on every way that the machine may go, and the kinds of comparisons
share all the rest.
-/

variable
    {Value : Type}
    {numerics : Numerics Value}
    {meaning : Meaning Value}
    {rounding : Rounding}

/--
The coprocessor combines numbers as a meaning asks for, comparisons apart.
-/
structure Computes
    (numerics : Numerics Value)
    (rounding : Rounding)
    (meaning : Meaning Value) :
    Prop where
  ofRat :
    ∀ value, numerics.ofRat value = meaning.ofRat value
  arithmetic :
    ∀ operation left right,
      numerics.combine operation left right =
        meaning.arithmetic operation left right
  modulo :
    ∀ left right,
      numerics.combine .subtract left
          (numerics.combine .multiply
            (numerics.ofInteger
              (numerics.toInteger rounding
                (numerics.combine .divide left right)))
            right) =
        meaning.modulo left right
  truth :
    ∀ value, meaning.IsTrue value ↔ (numerics.sign value).zeroFlag = false

theorem Computes.above
    (computes : Computes numerics rounding meaning)
    (count : Nat) :
    Computes (numerics.above count) rounding meaning :=
  ⟨computes.ofRat, computes.arithmetic, computes.modulo, computes.truth⟩

/--
The code of an operand has left its value, above numbers that may lie
deep on the stack.
-/
def Evaluated
    (below : List Value → Prop)
    (counters : Counters)
    (cell : Cell)
    (value : Value)
    (before core : Core Value) :
    Prop :=
  ∃ after deep,
    core = after.over deep ∧ below deep ∧
      Leaves counters cell value before after

/--
What code leaves on an empty stack, in the room that the registers in use leave,
it leaves above these registers as well.
-/
theorem exists_reaches_over_registers
    {code : List Line}
    {position following : Nat}
    {core : Core Value}
    {counters : Counters}
    {cell : Cell}
    {value : Value}
    (leavesAbove :
      ∃ after,
        Reaches (numerics.above core.registers.length) code
          ⟨position, { core with registers := [] }⟩ ⟨following, after⟩ ∧
        Leaves counters cell value { core with registers := [] } after) :
    ∃ final,
      Reaches numerics code ⟨position, core⟩ ⟨following, final⟩ ∧
      final.registers = core.registers ∧ final.control = core.control ∧
      final.memory cell.name = .real value := by
  obtain ⟨after, reaches, leaves⟩ := leavesAbove
  have registers : (after.over core.registers).registers = core.registers := by
    rw [Core.over, leaves.empty, List.nil_append]
  exact ⟨after.over core.registers, reaches.over, registers, leaves.control,
    leaves.holds⟩

/--
What compiled code relies on: no label is defined twice, the machine moves by
its steps where it is not free, there is room above what may lie deep on the
stack, and a comparison leaves the value that it means.
-/
structure Conduct
    (moves : State Value → State Value → Prop)
    (numerics : Numerics Value)
    (code : List Line)
    (options : Options)
    (rounding : Rounding)
    (meaning : Meaning Value)
    (below : List Value → Prop) :
    Prop where
  unique :
    (labels code).Nodup
  follows :
    Follows numerics code moves
  room :
    ∀ deep, below deep →
      numerics.hasRoom deep.length = true ∧
        numerics.hasRoom (deep.length + 1) = true
  computes :
    Computes numerics rounding meaning
  compares :
    ∀ {core : Core Value} {deep : List Value} {first second : Value}
      {left right : Cell}
      {counters : Counters} {position : Nat} (relation : Relation)
      (number : Nat),
      below deep → core.registers = [] →
        core.memory left.name = .real first →
          core.memory right.name = .real second →
          Placed code position
              (comparisonCode options.comparison relation left right
                (.temporary (counters.cells + 1)) number) →
            Leads moves position (core.over deep)
              (position +
                (comparisonCode options.comparison relation left right
                  (.temporary (counters.cells + 1)) number).length)
              (Evaluated below counters (.temporary (counters.cells + 1))
                (meaning.comparison relation first second) core)

section Conduct

variable
    {moves : State Value → State Value → Prop}
    {code : List Line}
    {options : Options}
    {below : List Value → Prop}
    {cells : String → Value}
    {counters : Counters}
    {position : Nat}
    {core : Core Value}
    {deep : List Value}
    (conduct : Conduct moves numerics code options rounding meaning below)

include conduct

theorem Conduct.room_above
    (allowed : below deep) :
    (numerics.above deep.length).hasRoom 0 = true ∧
      (numerics.above deep.length).hasRoom 1 = true :=
  conduct.room deep allowed

/--
Straight code that leaves a value on an empty stack does so above
what may lie deep.
-/
theorem Conduct.evaluates
    {lines : List Line}
    {cell : Cell}
    {value : Value}
    {before after : Core Value}
    (allowed : below deep)
    (placed : Placed code position lines)
    (straight : lines.all isStraight = true)
    (passes : passLines (numerics.above deep.length) core lines = some after)
    (leaves : Leaves counters cell value before after) :
    Leads moves position (core.over deep) (position + lines.length)
      (Evaluated below counters cell value before) := by
  refine (conduct.follows.passLines placed straight
    (passLines_over passes)).mono ?_
  rintro _ rfl
  exact ⟨after, deep, rfl, allowed, leaves⟩

omit conduct in
/--
One operand behind the other: both values are there when an
operation is to use them.
-/
theorem leads_operands
    {left right : Expr}
    {first second : Value}
    (prepared :
      Prepared numerics options rounding cells
        ((expression options left counters).data ++
          (expression options right
            (expression options left counters).next).data) core)
    (leftLeads :
      Prepared numerics options rounding cells
        (expression options left counters).data core →
        Leads moves position (core.over deep)
          (position + (expression options left counters).code.length)
          (Evaluated below counters (expression options left counters).cell
            first core))
    (rightLeads :
      ∀ {middle : Core Value} {deeper : List Value}, below deeper →
        Prepared numerics options rounding cells
            (expression options right
              (expression options left counters).next).data middle →
          Leads moves
            (position + (expression options left counters).code.length)
            (middle.over deeper)
            (position + (expression options left counters).code.length +
              (expression options right
                (expression options left counters).next).code.length)
            (Evaluated below (expression options left counters).next
              (expression options right
                (expression options left counters).next).cell second
              middle)) :
    Leads moves position (core.over deep)
      (position + (expression options left counters).code.length +
        (expression options right
          (expression options left counters).next).code.length)
      fun final =>
        ∃ after deeper, final = after.over deeper ∧ below deeper ∧
          after.memory (expression options left counters).cell.name =
            .real first ∧
          Leaves counters
            (expression options right
              (expression options left counters).next).cell
            second core after := by
  refine (leftLeads (prepared.of_subset (List.subset_append_left _ _))).trans ?_
  rintro _ ⟨middle, deeper, rfl, allowed, leftLeaves⟩
  have middlePrepared :=
    (prepared.of_subset (List.subset_append_right _ _)).after leftLeaves
  refine (rightLeads allowed middlePrepared).mono ?_
  rintro _ ⟨after, deepest, rfl, stillAllowed, rightLeaves⟩
  have leftOld := cell_old options left counters
  refine ⟨after, deepest, rfl, stillAllowed, ?_,
    leftLeaves.trans rightLeaves.of_next⟩
  rw [rightLeaves.kept _ leftOld.1 leftOld.2, leftLeaves.holds]

/-- Running the code of an expression leaves its value in its cell. -/
theorem leads_expression
    {value : Expr}
    (free : ∀ name ∈ value.names, isReserved (Symbol.storedName name) = false)
    (placed : Placed code position (expression options value counters).code)
    (allowed : below deep)
    (prepared :
      Prepared numerics options rounding cells
        (expression options value counters).data core) :
    Leads moves position (core.over deep)
      (position + (expression options value counters).code.length)
      (Evaluated below counters (expression options value counters).cell
        (value.value meaning cells) core) := by
  induction value generalizing counters position core deep with
  | absent =>
      obtain ⟨after, passes, leaves⟩ :=
        leaves_zeroOperand (conduct.room_above allowed).1 prepared.empty
          "absent operand" counters
      rw [(conduct.computes.above _).ofRat] at leaves
      exact conduct.evaluates allowed placed rfl passes leaves
  | misplaced =>
      obtain ⟨after, passes, leaves⟩ :=
        leaves_zeroOperand (conduct.room_above allowed).1 prepared.empty
          "statement used as value" counters
      rw [(conduct.computes.above _).ofRat] at leaves
      exact conduct.evaluates allowed placed rfl passes leaves
  | literal lexeme =>
      have holds :=
        prepared.literals (counters.cells + 2)
          (literalInitial options.literals lexeme)
          (List.mem_cons_of_mem _ List.mem_cons_self)
      rw [textValue_literalInitial, conduct.computes.ofRat] at holds
      obtain ⟨after, passes, leaves⟩ :=
        leaves_copy (conduct.room_above allowed).1 prepared.empty holds
          ("load literal " ++ lexeme) counters
      exact conduct.evaluates allowed placed rfl passes leaves
  | «variable» name =>
      have holds : core.memory (Cell.variable (Symbol.storedName name)).name =
          .real (cells (Symbol.storedName name)) :=
        prepared.userCells _ (free name (List.mem_singleton_self name))
      obtain ⟨after, passes, leaves⟩ :=
        leaves_copy (conduct.room_above allowed).1 prepared.empty holds
          ("load variable " ++ name) counters
      exact conduct.evaluates allowed placed rfl passes leaves
  | arithmetic operation left right leftLeads rightLeads =>
      obtain ⟨leftFree, rightFree⟩ := List.forall_mem_append.mp free
      simp only [expression, arithmeticOperand, List.append_assoc] at placed ⊢
      obtain ⟨leftPlaced, placed⟩ := placed.split
      obtain ⟨rightPlaced, ownPlaced⟩ := placed.split
      simp only [List.length_append, ← Nat.add_assoc]
      refine (leads_operands (prepared.of_subset (List.subset_append_left _ _))
        (leftLeads leftFree leftPlaced allowed)
        (rightLeads rightFree rightPlaced)).trans ?_
      rintro _ ⟨middle, deeper, rfl, stillAllowed, leftHolds, operands⟩
      obtain ⟨after, passes, leaves⟩ :=
        leaves_arithmeticCode (conduct.room_above stillAllowed) operands.empty
          leftHolds operands.holds operation
      rw [(conduct.computes.above _).arithmetic] at leaves
      exact conduct.evaluates stillAllowed ownPlaced rfl passes
        (operands.trans leaves.of_next.of_next)
  | modulo left right leftLeads rightLeads =>
      obtain ⟨leftFree, rightFree⟩ := List.forall_mem_append.mp free
      obtain ⟨leftOld, rightOld⟩ := operands_old options left right counters
      simp only [expression, moduloOperand, List.append_assoc] at placed ⊢
      obtain ⟨titlePlaced, placed⟩ := placed.split
      obtain ⟨leftPlaced, placed⟩ := placed.split
      obtain ⟨rightPlaced, ownPlaced⟩ := placed.split
      simp only [List.length_append, ← Nat.add_assoc]
      refine (conduct.follows.traverses titlePlaced rfl (fun _ => rfl)).leads ?_
      refine (leads_operands (prepared.of_subset (List.subset_append_left _ _))
        (leftLeads leftFree leftPlaced allowed)
        (rightLeads rightFree rightPlaced)).trans ?_
      rintro _ ⟨middle, deeper, rfl, stillAllowed, leftHolds, operands⟩
      obtain ⟨after, passes, leaves⟩ :=
        leaves_moduloCode (conduct.room_above stillAllowed) operands.empty
          leftOld rightOld leftHolds operands.holds options.modulo
      rw [operands.control, prepared.rounds,
        (conduct.computes.above _).modulo] at leaves
      exact conduct.evaluates stillAllowed ownPlaced
        (isStraight_moduloCode options.modulo)
        passes (operands.trans leaves.of_next.of_next)
  | comparison relation left right leftLeads rightLeads =>
      obtain ⟨leftFree, rightFree⟩ := List.forall_mem_append.mp free
      simp only [expression, comparisonOperand, List.append_assoc] at placed ⊢
      obtain ⟨leftPlaced, placed⟩ := placed.split
      obtain ⟨rightPlaced, ownPlaced⟩ := placed.split
      simp only [List.length_append, ← Nat.add_assoc]
      refine (leads_operands (prepared.of_subset (List.subset_append_left _ _))
        (leftLeads leftFree leftPlaced allowed)
        (rightLeads rightFree rightPlaced)).trans ?_
      rintro _ ⟨middle, deeper, rfl, stillAllowed, leftHolds, operands⟩
      refine (conduct.compares relation _ stillAllowed operands.empty leftHolds
        operands.holds ownPlaced).mono ?_
      rintro _ ⟨after, deepest, rfl, allowedAfter, leaves⟩
      exact ⟨after, deepest, rfl, allowedAfter,
        operands.trans leaves.of_next.of_next⟩

end Conduct

/-- Comparisons that yield one or zero leave nothing on the stack. -/
theorem conduct_stepMove
    {code : List Line}
    {options : Options}
    (unique : (labels code).Nodup)
    (isBoolean : options.comparison = .boolean)
    (realizes : Realizes numerics rounding meaning) :
    Conduct (StepMove numerics code) numerics code options rounding meaning
      (· = []) where
  unique := unique
  follows := follows_stepMove numerics code
  room := by
    rintro _ rfl
    exact realizes.room
  computes :=
    ⟨realizes.ofRat, realizes.arithmetic, realizes.modulo, realizes.truth⟩
  compares := by
    rintro core _ first second left right counters position relation number rfl
      empty leftHolds rightHolds placed
    rw [isBoolean] at placed ⊢
    obtain ⟨after, ⟨count, runs⟩, leaves⟩ :=
      leaves_comparisonCode unique realizes.room empty leftHolds rightHolds
        relation number placed
    rw [realizes.comparison] at leaves
    rw [Core.over_nil]
    exact inevitable_of_run runs
      ⟨rfl, after, [], after.over_nil.symm, rfl, leaves⟩

end Coprocessor.Compile
