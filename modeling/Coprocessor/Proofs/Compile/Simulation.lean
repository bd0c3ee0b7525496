import Coprocessor.Proofs.Compile.Conduct

namespace Coprocessor.Compile

open Assembly Machine

/-!
# Running the code of statements

The code of a statement enacts the statement, wherever it stands in code
that defines no label twice. Between statements every variable has its
value in its own cell, and nothing lies on the register stack but what may
be left deep on it.
-/

variable
    {Value : Type}
    {numerics : Numerics Value}
    {meaning : Meaning Value}
    {rounding : Rounding}
    {options : Options}
    {data : List Declaration}

theorem Prepared.same
    {cells : String → Value}
    {core after : Core Value}
    (prepared : Prepared numerics options rounding cells data core)
    (empty : after.registers = [])
    (memory : after.memory = core.memory)
    (control : after.control = core.control) :
    Prepared numerics options rounding cells data after where
  empty := empty
  rounds := by
    rw [control, prepared.rounds]
  userCells := by
    rw [Core.Holds, memory]
    exact prepared.userCells
  literals := by
    rw [memory]
    exact prepared.literals

/-- Putting a number in the cell of a variable gives the variable that value. -/
theorem Prepared.assign
    {cells : String → Value}
    {core : Core Value}
    {name : String}
    (prepared : Prepared numerics options rounding cells data core)
    (free : isReserved name = false)
    (value : Value) :
    Prepared numerics options rounding (Function.update cells name value) data
      (core.put (.variable name) (.real value)) where
  empty := prepared.empty
  rounds := prepared.rounds
  userCells := by
    intro other otherFree
    by_cases same : other = name
    · rw [same, Function.update_self]
      exact core.put_self (.variable name) (.real value)
    · rw [Function.update_of_ne same, ← prepared.userCells other otherFree]
      exact Function.update_of_ne same _ _
  literals := by
    intro number initial member
    have proper : (Cell.variable name).IsProper := free
    rw [core.put_of_ne (.real value) proper (Cell.isProper_literal number)
      (by simp)]
    exact prepared.literals number initial member

/-- What code needs to find, above numbers that may lie deep on the stack. -/
def PreparedAbove
    (numerics : Numerics Value)
    (options : Options)
    (rounding : Rounding)
    (below : List Value → Prop)
    (data : List Declaration)
    (cells : String → Value)
    (core : Core Value) :
    Prop :=
  ∃ clean deep, core = clean.over deep ∧ below deep ∧
    Prepared numerics options rounding cells data clean

/--
Where nothing may lie deep on the stack, code finds what it needs on
an empty stack.
-/
theorem preparedAbove_nil :
    PreparedAbove numerics options rounding (· = []) data =
      (Prepared numerics options rounding · data ·) := by
  funext cells core
  refine propext ⟨?_, ?_⟩
  · rintro ⟨clean, _, rfl, rfl, prepared⟩
    rwa [Core.over_nil]
  · intro prepared
    exact ⟨core, [], core.over_nil.symm, rfl, prepared⟩

section Conduct

variable
    {moves : State Value → State Value → Prop}
    {code : List Line}
    {below : List Value → Prop}
    {counters : Counters}
    {position : Nat}
    {core : Core Value}
    {deep : List Value}
    (conduct : Conduct moves numerics code options rounding meaning below)

include conduct

/--
A number is tested: where it counts as true the machine goes on, else it jumps.
-/
theorem leads_jumpIfZero
    {cell : Cell}
    {target : Label}
    {value : Value}
    {following : Nat}
    (placed : Placed code position (jumpIfZero cell target))
    (notComparison : target.landmark ≠ .endOfComparison)
    (targetAt : code[following]? = some (.label target))
    (allowed : below deep)
    (empty : core.registers = [])
    (holds : core.memory cell.name = .real value) :
    ∃ after : Core Value, after.registers = [] ∧ after.memory = core.memory ∧
      after.control = core.control ∧
      (meaning.IsTrue value →
        Leads moves position (core.over deep)
          (position + (jumpIfZero cell target).length) (· = after.over deep)) ∧
      (¬ meaning.IsTrue value →
        Leads moves position (core.over deep) following
          (· = after.over deep)) := by
  have loads :
      passLines (numerics.above deep.length) core [.code (.load cell)] =
        some { core with registers := [value] } := by
    simp [Line.code, passLines, effect, execute, push, holds, empty,
      (conduct.room_above allowed).1]
  obtain ⟨tested, passes, registers, memory, control, -, zero⟩ :=
    passLines_flagsOfTop (numerics.above deep.length)
      (show { core with registers := [value] }.registers = value :: [] from rfl)
  have drops :
      passLines (numerics.above deep.length) tested [.code .discard] =
        some { tested with registers := [] } := by
    simp [Line.code, passLines, effect, execute, registers]
  let head : List Line := [.code (.load cell)] ++ flagsOfTop ++ [.code .discard]
  have pieces :
      Placed code position (head ++ [.code (.jump .equal target)]) := placed
  obtain ⟨headPlaced, jumpPlaced⟩ := pieces.split
  have before :=
    conduct.follows.passLines headPlaced rfl
      (passLines_over
        (passLines_append_of_some
          (passLines_append_of_some loads passes) drops))
  have forced : isComparisonJump (.code (.jump .equal target)) = false := by
    simp [isComparisonJump, Line.control?, Line.code, notComparison]
  have truth := (conduct.computes.above deep.length).truth value
  rw [← zero] at truth
  refine ⟨{ tested with registers := [] }, rfl, memory, control, ?_, ?_⟩
  · intro isTrue
    have notTaken := truth.mp isTrue
    refine before.trans ?_
    rintro _ rfl
    exact .of_single (conduct.follows.forced jumpPlaced.head forced
      (step_of_not_taken jumpPlaced.head rfl notTaken)) rfl
  · intro isFalse
    have taken : tested.flags.zero = true :=
      Bool.eq_true_of_not_eq_false (mt truth.mpr isFalse)
    have resolved := labelPosition?_eq_some conduct.unique targetAt
    refine before.trans ?_
    rintro _ rfl
    exact .of_single (conduct.follows.forced jumpPlaced.head forced
      (step_of_taken jumpPlaced.head rfl taken resolved)) rfl

/-- The code of a condition with a jump behind it decides by the condition. -/
theorem decides_condition
    {condition : Expr}
    (title : List Line)
    {target : Label}
    {following : Nat}
    (free :
      ∀ name ∈ condition.names, isReserved (Symbol.storedName name) = false)
    (subset : (expression options condition counters).data ⊆ data)
    (placed : Placed code position (expression options condition counters).code)
    (straight : title.all isStraight = true)
    (silent : ∀ core, passLines numerics core title = some core)
    (headPlaced :
      Placed code
        (position + (expression options condition counters).code.length)
        (title ++ jumpIfZero (expression options condition counters).cell
          target))
    (notComparison : target.landmark ≠ .endOfComparison)
    (targetAt : code[following]? = some (.label target)) :
    Decides moves meaning (PreparedAbove numerics options rounding below data)
      condition position
      (position + (expression options condition counters).code.length +
        (title ++ jumpIfZero (expression options condition counters).cell
          target).length)
      following := by
  rintro cells _ ⟨core, deep, rfl, allowed, prepared⟩
  obtain ⟨titlePlaced, jumpPlaced⟩ := headPlaced.split
  have evaluates :=
    leads_expression conduct free placed allowed (prepared.of_subset subset)
  have traverses := conduct.follows.traverses titlePlaced straight silent
  have decides :
      ∀ next,
        Evaluated below counters (expression options condition counters).cell
          (condition.value meaning cells) core next →
        (meaning.IsTrue (condition.value meaning cells) →
          Leads moves
            (position + (expression options condition counters).code.length)
            next
            (position + (expression options condition counters).code.length +
              (title ++ jumpIfZero (expression options condition counters).cell
                target).length)
            (PreparedAbove numerics options rounding below data cells)) ∧
        (¬ meaning.IsTrue (condition.value meaning cells) →
          Leads moves
            (position + (expression options condition counters).code.length)
            next following
              (PreparedAbove numerics options rounding below data cells)) := by
    rintro _ ⟨evaluated, deeper, rfl, stillAllowed, leaves⟩
    obtain ⟨after, empty, memory, control, leadsTrue, leadsFalse⟩ :=
      leads_jumpIfZero conduct jumpPlaced notComparison targetAt stillAllowed
        leaves.empty leaves.holds
    have afterPrepared := (prepared.after leaves).same empty memory control
    rw [List.length_append, ← Nat.add_assoc]
    constructor
    · intro holds
      refine traverses.leads ((leadsTrue holds).mono ?_)
      rintro _ rfl
      exact ⟨after, deeper, rfl, stillAllowed, afterPrepared⟩
    · intro fails
      refine traverses.leads ((leadsFalse fails).mono ?_)
      rintro _ rfl
      exact ⟨after, deeper, rfl, stillAllowed, afterPrepared⟩
  constructor
  · intro holds
    exact evaluates.trans fun next evaluated => (decides next evaluated).1 holds
  · intro fails
    exact evaluates.trans fun next evaluated => (decides next evaluated).2 fails

theorem enacts_assignment
    {target : String}
    {value : Expr}
    (free :
      ∀ name ∈ (Stmt.assignment target value).names,
        isReserved (Symbol.storedName name) = false)
    (subset : (expression options value counters).data ⊆ data)
    (placed :
      Placed code position
        (statement options (.assignment target value) counters).code) :
    Enacts moves meaning (PreparedAbove numerics options rounding below data)
      (.assignment target value) position
      (position +
        (statement options (.assignment target value)
          counters).code.length) := by
  obtain ⟨targetFree, valueFree⟩ := List.forall_mem_cons.mp free
  simp only [statement, List.append_assoc] at placed ⊢
  obtain ⟨titlePlaced, placed⟩ := placed.split
  obtain ⟨valuePlaced, storePlaced⟩ := placed.split
  simp only [List.length_append, ← Nat.add_assoc]
  refine .enter (conduct.follows.traverses titlePlaced rfl (fun _ => rfl)) ?_
  refine .of_total (fun before => ⟨_, .assignment⟩) ?_
  rintro before after _ runs ⟨core, deep, rfl, allowed, prepared⟩
  cases runs
  refine (leads_expression conduct valueFree valuePlaced allowed
    (prepared.of_subset subset)).trans ?_
  rintro _ ⟨evaluated, deeper, rfl, stillAllowed, leaves⟩
  have stores :
      passLines (numerics.above deeper.length) evaluated
          (assignCode (expression options value counters).cell target) =
        some (evaluated.put (.variable (Symbol.storedName target))
          (.real (value.value meaning before))) := by
    simp [assignCode, passLines, effect, execute, push, Core.put, leaves.holds,
      leaves.empty, (conduct.room_above stillAllowed).1]
  refine (conduct.follows.passLines storePlaced rfl
    (passLines_over stores)).mono ?_
  rintro _ rfl
  exact ⟨_, deeper, rfl, stillAllowed,
    (prepared.after leaves).assign targetFree _⟩

/-- The code of a statement does what the statement does. -/
theorem enacts_statement
    {body : Stmt}
    (free : ∀ name ∈ body.names, isReserved (Symbol.storedName name) = false)
    (subset : (statement options body counters).data ⊆ data)
    (placed : Placed code position (statement options body counters).code) :
    Enacts moves meaning (PreparedAbove numerics options rounding below data)
      body position
      (position + (statement options body counters).code.length) := by
  have silent :
      ∀ {lines : List Line} {position : Nat}, Placed code position lines →
        lines.all isStraight = true →
          (∀ core, passLines numerics core lines = some core) →
          Traverses moves position (position + lines.length) :=
    conduct.follows.traverses
  induction body generalizing counters position with
  | skip =>
      exact .skip position
  | sequence first second firstEnacts secondEnacts =>
      obtain ⟨firstFree, secondFree⟩ := List.forall_mem_append.mp free
      obtain ⟨firstData, secondData⟩ := List.append_subset.mp subset
      obtain ⟨firstPlaced, secondPlaced⟩ := placed.split
      have enacts :=
        (firstEnacts firstFree firstData firstPlaced).sequence
          (secondEnacts secondFree secondData secondPlaced)
      simpa only [statement, List.length_append, ← Nat.add_assoc] using enacts
  | conditional condition body bodyEnacts =>
      obtain ⟨conditionFree, bodyFree⟩ := List.forall_mem_append.mp free
      obtain ⟨conditionData, bodyData⟩ := List.append_subset.mp subset
      simp only [statement, List.append_assoc] at placed ⊢
      obtain ⟨testPlaced, placed⟩ := placed.split
      obtain ⟨headPlaced, placed⟩ := placed.split
      obtain ⟨bodyPlaced, endPlaced⟩ := placed.split
      have decides :=
        decides_condition conduct [_, _] conditionFree conditionData
          testPlaced rfl (fun _ => rfl) headPlaced (by simp) endPlaced.head
      have enacts :=
        (Enacts.conditional decides
          (bodyEnacts bodyFree bodyData bodyPlaced)).leave
          (silent endPlaced rfl (fun _ => rfl))
      simpa only [List.length_append, ← Nat.add_assoc] using enacts
  | choice condition onTrue onFalse trueEnacts falseEnacts =>
      obtain ⟨conditionFree, branchesFree⟩ := List.forall_mem_append.mp free
      obtain ⟨trueFree, falseFree⟩ := List.forall_mem_append.mp branchesFree
      obtain ⟨firstData, falseData⟩ := List.append_subset.mp subset
      obtain ⟨conditionData, trueData⟩ := List.append_subset.mp firstData
      simp only [statement, List.append_assoc] at placed ⊢
      obtain ⟨testPlaced, placed⟩ := placed.split
      obtain ⟨headPlaced, placed⟩ := placed.split
      obtain ⟨truePlaced, placed⟩ := placed.split
      obtain ⟨middlePlaced, placed⟩ := placed.split
      have elsePlaced := middlePlaced.tail
      obtain ⟨falsePlaced, endPlaced⟩ := placed.split
      have decides :=
        decides_condition conduct [_, _] conditionFree conditionData
          testPlaced rfl (fun _ => rfl) headPlaced (by simp) elsePlaced.head
      have endResolved := labelPosition?_eq_some conduct.unique endPlaced.head
      have trueBranch :=
        (trueEnacts trueFree trueData truePlaced).leave fun core =>
          .of_single (conduct.follows.jumps middlePlaced.head endResolved core)
            rfl
      have falseBranch :=
        (falseEnacts falseFree falseData falsePlaced).enter
          (silent elsePlaced rfl (fun _ => rfl))
      have enacts :=
        (Enacts.choice decides trueBranch falseBranch).leave
          (silent endPlaced rfl (fun _ => rfl))
      simpa only [List.length_append, ← Nat.add_assoc] using enacts
  | loop condition body bodyEnacts =>
      obtain ⟨conditionFree, bodyFree⟩ := List.forall_mem_append.mp free
      obtain ⟨conditionData, bodyData⟩ := List.append_subset.mp subset
      simp only [statement, List.append_assoc] at placed ⊢
      obtain ⟨startPlaced, placed⟩ := placed.split
      obtain ⟨testPlaced, placed⟩ := placed.split
      obtain ⟨headPlaced, placed⟩ := placed.split
      obtain ⟨bodyPlaced, tailPlaced⟩ := placed.split
      obtain ⟨titlePlaced, labelPlaced⟩ :=
        (show Placed code position
          ([.blank, .comment "--- WHILE statement ---"] ++
            [.label ⟨.loopStart, _⟩])
          from startPlaced).split
      have endPlaced := tailPlaced.tail
      have decides :=
        (decides_condition conduct [] conditionFree conditionData testPlaced rfl
          (fun _ => rfl) headPlaced (by simp) endPlaced.head).enter
          (silent labelPlaced rfl (fun _ => rfl))
      have startResolved :=
        labelPosition?_eq_some conduct.unique labelPlaced.head
      have enacts :=
        ((Enacts.loop decides (bodyEnacts bodyFree bodyData bodyPlaced)
          (conduct.follows.jumps tailPlaced.head startResolved)).enter
          (silent titlePlaced rfl (fun _ => rfl))).leave
          (silent endPlaced rfl (fun _ => rfl))
      simp only [List.length_append, ← Nat.add_assoc]
      exact enacts
  | assignment target value =>
      exact enacts_assignment conduct free subset placed
  | evaluation value =>
      refine .of_total (fun before => ⟨before, .evaluation⟩) ?_
      rintro before after _ runs ⟨core, deep, rfl, allowed, prepared⟩
      cases runs
      refine (leads_expression conduct free placed allowed
        (prepared.of_subset subset)).mono ?_
      rintro _ ⟨evaluated, deeper, rfl, stillAllowed, leaves⟩
      exact ⟨evaluated, deeper, rfl, stillAllowed, prepared.after leaves⟩

end Conduct

end Coprocessor.Compile
