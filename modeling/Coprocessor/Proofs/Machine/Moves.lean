import Coprocessor.Proofs.Machine.Simulation

namespace Coprocessor.Machine

open Assembly

/-!
# Moves of the machine

The machine may be left free at the jumps of comparisons, so that it goes on
either way there whatever its flags are. Everywhere else it moves by its steps.
Numbers that lie deep on the register stack do no harm to code that does not ask
for them: as long as there is room above, it runs as on an empty stack.
-/

/-- Whether a line is the jump by which a comparison is decided. -/
def isComparisonJump (line : Line) : Bool :=
  match line.control? with
  | some (.jump condition target) =>
      condition != .always && target.landmark == .endOfComparison
  | _ => false

theorem isComparisonJump_of_isStraight
    {line : Line}
    (straight : isStraight line = true) :
    isComparisonJump line = false := by
  rw [isStraight] at straight
  rw [isComparisonJump]
  split
  case h_1 condition target isJump =>
      rw [isJump] at straight
      cases straight
  case h_2 =>
      rfl

variable
    {Value : Type}

section Moves

variable
    (numerics : Numerics Value)
    (code : List Line)

/--
A move of the machine where comparisons are decided freely at each
of their jumps.
-/
inductive FreeMove : State Value → State Value → Prop where
  | step
      {before after : State Value} :
      code[before.position]?.any isComparisonJump = false →
      step numerics code before = some after →
      FreeMove before after
  | goesOn
      {position : Nat}
      {line : Line}
      (core : Core Value) :
      code[position]? = some line →
      isComparisonJump line = true →
      FreeMove ⟨position, core⟩ ⟨position + 1, core⟩
  | jumps
      {position following : Nat}
      {line : Line}
      {condition : Condition}
      {target : Label}
      (core : Core Value) :
      code[position]? = some line →
      isComparisonJump line = true →
      line.control? = some (.jump condition target) →
      labelPosition? code target = some following →
      FreeMove ⟨position, core⟩ ⟨following, core⟩

/--
Moves that are the steps of the machine, apart from the jumps of comparisons.
-/
structure Follows (moves : State Value → State Value → Prop) : Prop where
  forced :
    ∀ {position : Nat} {core : Core Value} {line : Line} {next : State Value},
      code[position]? = some line → isComparisonJump line = false →
        step numerics code ⟨position, core⟩ = some next →
          ∀ other, moves ⟨position, core⟩ other ↔ other = next

theorem follows_stepMove : Follows numerics code (StepMove numerics code) where
  forced := by
    intro position core line next _ _ steps other
    rw [StepMove, steps, Option.some.injEq, eq_comm]

theorem follows_freeMove : Follows numerics code (FreeMove numerics code) where
  forced := by
    intro position core line next lineAt notComparison steps other
    have notFree : code[position]?.any isComparisonJump = false := by
      rw [lineAt]
      exact notComparison
    constructor
    · intro move
      cases move with
      | step _ otherSteps =>
          exact Option.some.inj (otherSteps.symm.trans steps)
      | goesOn _ otherAt isFree | jumps _ otherAt isFree _ _ =>
          obtain rfl := Option.some.inj (lineAt.symm.trans otherAt)
          rw [notComparison] at isFree
          cases isFree
    · rintro rfl
      exact .step notFree steps

/-- At the end of the program there is no move. -/
theorem not_freeMove_of_atExit
    {state : State Value}
    (atExit : AtExit code state)
    (next : State Value) :
    ¬ FreeMove numerics code state next := by
  intro move
  cases move with
  | step _ steps =>
      rw [step_of_atExit atExit] at steps
      cases steps
  | goesOn _ lineAt isFree | jumps _ lineAt isFree _ _ =>
      obtain rfl := Option.some.inj (atExit.symm.trans lineAt)
      cases isFree

end Moves

/-- What both ways of a comparison lead to is led to from its jump. -/
theorem leads_of_comparisonJump
    {numerics : Numerics Value}
    {code : List Line}
    {line : Line}
    {condition : Condition}
    {target : Label}
    {position following finish : Nat}
    {core : Core Value}
    {holds : Core Value → Prop}
    (lineAt : code[position]? = some line)
    (isFree : isComparisonJump line = true)
    (isJump : line.control? = some (.jump condition target))
    (resolved : labelPosition? code target = some following)
    (goesOn : Leads (FreeMove numerics code) (position + 1) core finish holds)
    (jumps : Leads (FreeMove numerics code) following core finish holds) :
    Leads (FreeMove numerics code) position core finish holds := by
  refine Inevitable.onward ⟨_, .goesOn core lineAt isFree⟩ ?_
  intro next move
  cases move with
  | step notFree _ =>
      rw [lineAt, Option.any_some, isFree] at notFree
      cases notFree
  | goesOn =>
      exact goesOn
  | jumps _ otherAt _ otherJump otherResolved =>
      obtain rfl := Option.some.inj (lineAt.symm.trans otherAt)
      rw [isJump] at otherJump
      cases otherJump
      obtain rfl := Option.some.inj (resolved.symm.trans otherResolved)
      exact jumps

section Leads

variable
    {numerics : Numerics Value}
    {code : List Line}
    {moves : State Value → State Value → Prop}
    (follows : Follows numerics code moves)
    {core : Core Value}
    {position : Nat}

include follows

/-- Straight lines that stand in the code are passed with all their effects. -/
theorem Follows.passLines
    {lines : List Line}
    {final : Core Value}
    (placed : Placed code position lines)
    (straight : lines.all isStraight = true)
    (passes : Machine.passLines numerics core lines = some final) :
    Leads moves position core (position + lines.length) (· = final) := by
  induction lines generalizing core position with
  | nil =>
      exact .here (Option.some.inj passes)
  | cons line rest inductionHypothesis =>
      rw [List.all_cons, Bool.and_eq_true] at straight
      rw [Machine.passLines] at passes
      cases next : effect numerics core line with
      | none =>
          rw [next] at passes
          cases passes
      | some middle =>
          rw [next] at passes
          have single :=
            follows.forced placed.head
              (isComparisonJump_of_isStraight straight.1)
              (step_of_straight placed.head straight.1 next)
          have later := inductionHypothesis placed.tail straight.2 passes
          rw [List.length_cons, Nat.add_comm rest.length, ← Nat.add_assoc]
          refine (Leads.of_single single rfl).trans ?_
          rintro _ rfl
          exact later

/-- Lines without an effect are passed. -/
theorem Follows.traverses
    {lines : List Line}
    (placed : Placed code position lines)
    (straight : lines.all isStraight = true)
    (silent : ∀ core, Machine.passLines numerics core lines = some core) :
    Traverses moves position (position + lines.length) :=
  fun core => follows.passLines placed straight (silent core)

/-- A jump without a condition leads to its target and nowhere else. -/
theorem Follows.jumps
    {target : Label}
    {following : Nat}
    (lineAt : code[position]? = some (.code (.jump .always target)))
    (resolved : labelPosition? code target = some following)
    (core : Core Value) :
    ∀ other, moves ⟨position, core⟩ other ↔ other = ⟨following, core⟩ :=
  follows.forced lineAt rfl (step_of_taken lineAt rfl rfl resolved)

end Leads

/-- The machine with some numbers on its stack taken for granted. -/
def Numerics.above
    (numerics : Numerics Value)
    (count : Nat) :
    Numerics Value :=
  { numerics with hasRoom := fun depth => numerics.hasRoom (count + depth) }

/-- The machine with further numbers below those on its stack. -/
def Core.over
    (core : Core Value)
    (deep : List Value) :
    Core Value :=
  { core with registers := core.registers ++ deep }

theorem Core.over_nil (core : Core Value) : core.over [] = core := by
  rw [Core.over, List.append_nil]

section Frame

variable
    {numerics : Numerics Value}
    {deep : List Value}
    {core after : Core Value}

theorem push_over
    {value : Value}
    (pushes : push (numerics.above deep.length) value core = some after) :
    push numerics value (core.over deep) = some (after.over deep) := by
  rw [push] at pushes ⊢
  rw [Core.over, List.length_append, Nat.add_comm]
  split at pushes
  case isTrue room =>
      obtain rfl := Option.some.inj pushes
      exact if_pos room
  case isFalse =>
      cases pushes

/-- What an instruction does, it does also above further numbers. -/
theorem execute_over
    {instruction : Instr}
    (executes :
      execute (numerics.above deep.length) core instruction = some after) :
    execute numerics (core.over deep) instruction = some (after.over deep) := by
  cases instruction with
  | loadZero | loadOne =>
      exact push_over executes
  | load source | loadInteger source =>
      simp only [execute] at executes ⊢
      split at executes
      case h_1 value holds =>
          rw [show (core.over deep).memory source.name = _ from holds]
          exact push_over executes
      case h_2 =>
          cases executes
  | store target | storeInteger target | discard | test =>
      simp only [execute] at executes ⊢
      split at executes
      case h_1 top rest shape =>
          obtain rfl := Option.some.inj executes
          simp [Core.over, Core.put, shape, Numerics.above]
      case h_2 =>
          cases executes
  | combine operation =>
      simp only [execute] at executes ⊢
      split at executes
      case h_1 top below rest shape =>
          obtain rfl := Option.some.inj executes
          simp [Core.over, shape, Numerics.above]
      case h_2 =>
          cases executes
  | subtractCell source =>
      simp only [execute] at executes ⊢
      split at executes
      case h_1 top rest value shape holds =>
          obtain rfl := Option.some.inj executes
          simp [Core.over, shape, holds, Numerics.above]
      case h_2 =>
          cases executes
  | loadControl source | loadAccumulator source =>
      simp only [execute] at executes ⊢
      split at executes
      case h_1 word holds =>
          obtain rfl := Option.some.inj executes
          simp [Core.over, holds]
      case h_2 =>
          cases executes
  | storeStatus | setFlags | storeControl target | storeAccumulator target
  | maskAccumulator mask | raiseAccumulator mask | jump condition target =>
      obtain rfl := Option.some.inj executes
      rfl

theorem effect_over
    {line : Line}
    (passes : effect (numerics.above deep.length) core line = some after) :
    effect numerics (core.over deep) line = some (after.over deep) := by
  cases line with
  | instr code column =>
      exact execute_over passes
  | _ =>
      obtain rfl := Option.some.inj passes
      rfl

theorem passLines_over
    {lines : List Line}
    (passes : passLines (numerics.above deep.length) core lines = some after) :
    passLines numerics (core.over deep) lines = some (after.over deep) := by
  induction lines generalizing core with
  | nil =>
      obtain rfl := Option.some.inj passes
      rfl
  | cons line rest inductionHypothesis =>
      rw [passLines] at passes ⊢
      cases next : effect (numerics.above deep.length) core line with
      | none =>
          rw [next] at passes
          cases passes
      | some middle =>
          rw [next] at passes
          rw [effect_over next]
          exact inductionHypothesis passes

/-- What the machine does in a step, it does also above further numbers. -/
theorem step_over
    {code : List Line}
    {position following : Nat}
    (steps :
      step (numerics.above deep.length) code ⟨position, core⟩ =
        some ⟨following, after⟩) :
    step numerics code ⟨position, core.over deep⟩ =
      some ⟨following, after.over deep⟩ := by
  rw [step] at steps
  cases lineAt : code[position]? with
  | none =>
      rw [lineAt] at steps
      cases steps
  | some line =>
      rw [lineAt] at steps
      dsimp only at steps
      split at steps
      case isTrue =>
          cases steps
      case isFalse notExit =>
          split at steps
          case h_1 condition target isJump =>
              split at steps
              case isTrue taken =>
                  obtain ⟨_, resolved, same⟩ := Option.map_eq_some_iff.mp steps
                  cases same
                  exact step_of_taken lineAt isJump taken resolved
              case isFalse notTaken =>
                  cases steps
                  exact step_of_not_taken lineAt isJump
                    (Bool.eq_false_iff.mpr notTaken)
          case h_2 noJump =>
              obtain ⟨_, passes, same⟩ := Option.map_eq_some_iff.mp steps
              cases same
              have straight : isStraight line = true := by
                rw [isStraight]
                split
                case h_1 condition target isJump =>
                    exact absurd isJump (noJump condition target)
                case h_2 =>
                    exact bne_iff_ne.mpr notExit
              exact step_of_straight lineAt straight (effect_over passes)

/-- Where the machine comes to, it comes to also above further numbers. -/
theorem Reaches.over
    {code : List Line}
    {position following : Nat}
    (reaches :
      Reaches (numerics.above deep.length) code ⟨position, core⟩
        ⟨following, after⟩) :
    Reaches numerics code ⟨position, core.over deep⟩
      ⟨following, after.over deep⟩ := by
  obtain ⟨count, runs⟩ := reaches
  induction count generalizing position core with
  | zero =>
      cases runs
      exact .refl _
  | succ count inductionHypothesis =>
      rw [run] at runs
      obtain ⟨⟨middle, next⟩, steps, later⟩ := Option.bind_eq_some_iff.mp runs
      exact (Reaches.of_step (step_over steps)).trans
        (inductionHypothesis later)

end Frame

end Coprocessor.Machine
