import Mathlib.Logic.Relation

namespace Coprocessor.Machine

/-!
# Machines that go on in several ways

A machine may have more than one move at a state. Something is inevitable if the
machine comes to it on every way, after finitely many moves and without a halt
in between. A machine is ceaseless if it halts on none of its ways.
-/

variable
    {Situation : Type}

/-- On every way the machine comes to a goal. -/
inductive Inevitable
    (moves : Situation → Situation → Prop)
    (goal : Situation → Prop) :
    Situation → Prop where
  | here
      {state : Situation} :
      goal state →
      Inevitable moves goal state
  | onward
      {state : Situation} :
      (∃ next, moves state next) →
      (∀ next, moves state next → Inevitable moves goal next) →
      Inevitable moves goal state

/-- On no way does the machine halt. -/
def Ceaseless
    (moves : Situation → Situation → Prop)
    (start : Situation) :
    Prop :=
  ∀ state, Relation.ReflTransGen moves start state → ∃ next, moves state next

/-- On every way the machine makes a move and comes to a goal then. -/
def Progresses
    (moves : Situation → Situation → Prop)
    (goal : Situation → Prop)
    (start : Situation) :
    Prop :=
  (∃ next, moves start next) ∧
    ∀ next, moves start next → Inevitable moves goal next

variable
    {moves : Situation → Situation → Prop}
    {goal middle : Situation → Prop}
    {start : Situation}

theorem Progresses.inevitable
    (progresses : Progresses moves goal start) :
    Inevitable moves goal start :=
  .onward progresses.1 progresses.2

/-- A single move leads where it leads. -/
theorem Progresses.of_single
    {next : Situation}
    (single : ∀ other, moves start other ↔ other = next)
    (later : Inevitable moves goal next) :
    Progresses moves goal start := by
  refine ⟨⟨next, (single next).mpr rfl⟩, ?_⟩
  intro other move
  obtain rfl := (single other).mp move
  exact later

namespace Inevitable

theorem trans
    (before : Inevitable moves middle start)
    (after : ∀ state, middle state → Inevitable moves goal state) :
    Inevitable moves goal start := by
  induction before with
  | here reached =>
      exact after _ reached
  | onward goesOn _ inductionHypothesis =>
      exact .onward goesOn inductionHypothesis

theorem mono
    (inevitable : Inevitable moves middle start)
    (weaker : ∀ state, middle state → goal state) :
    Inevitable moves goal start :=
  inevitable.trans fun state reached => .here (weaker state reached)

/-- What progresses after something inevitable progresses at once. -/
theorem progresses
    (before : Inevitable moves middle start)
    (after : ∀ state, middle state → Progresses moves goal state) :
    Progresses moves goal start := by
  cases before with
  | here reached =>
      exact after _ reached
  | onward goesOn later =>
      refine ⟨goesOn, ?_⟩
      intro next move
      exact (later next move).trans fun state reached =>
        (after state reached).inevitable

theorem ceaseless
    (before : Inevitable moves middle start)
    (after : ∀ state, middle state → Ceaseless moves state) :
    Ceaseless moves start := by
  induction before with
  | here reached =>
      exact after _ reached
  | onward goesOn _ inductionHypothesis =>
      intro state reached
      rcases reached.cases_head with rfl | ⟨next, move, later⟩
      · exact goesOn
      · exact inductionHypothesis next move state later

/-- Where a goal is a halt, the machine halts at a goal only. -/
theorem of_halted
    (inevitable : Inevitable moves goal start)
    (final : ∀ state, goal state → ∀ next, ¬ moves state next)
    {state : Situation}
    (reached : Relation.ReflTransGen moves start state)
    (halted : ∀ next, ¬ moves state next) :
    goal state := by
  induction inevitable with
  | here atGoal =>
      rcases reached.cases_head with rfl | ⟨next, move, -⟩
      · exact atGoal
      · exact absurd move (final _ atGoal next)
  | onward goesOn _ inductionHypothesis =>
      rcases reached.cases_head with rfl | ⟨next, move, later⟩
      · obtain ⟨next, move⟩ := goesOn
        exact absurd move (halted next)
      · exact inductionHypothesis next move later

end Inevitable

/--
A machine that progresses again and again, or else is ceaseless, is ceaseless.
-/
theorem ceaseless_of_progress
    (going : Situation → Prop)
    (progress :
      ∀ state, going state →
        Ceaseless moves state ∨ Progresses moves going state)
    (goes : going start) :
    Ceaseless moves start := by
  -- Every state on the way is ceaseless itself or will go on from a state
  -- like the first.
  have underway :
      ∀ state, Relation.ReflTransGen moves start state →
        Ceaseless moves state ∨ Inevitable moves going state := by
    intro state reached
    induction reached with
    | refl =>
        exact .inr (.here goes)
    | tail _ move inductionHypothesis =>
        have ofProgress :
            Progresses moves going _ → Inevitable moves going _ :=
          fun progresses => progresses.2 _ move
        have ofCeaseless : Ceaseless moves _ → Ceaseless moves _ :=
          fun ceaseless later reached => ceaseless later (.head move reached)
        rcases inductionHypothesis with ceaseless | inevitable
        · exact .inl (ofCeaseless ceaseless)
        · cases inevitable with
          | here atStart =>
              exact (progress _ atStart).imp ofCeaseless ofProgress
          | onward _ later =>
              exact .inr (later _ move)
  intro state reached
  rcases underway state reached with ceaseless | inevitable
  · exact ceaseless state .refl
  · cases inevitable with
    | here atStart =>
        rcases progress state atStart with ceaseless | progresses
        · exact ceaseless state .refl
        · exact progresses.1
    | onward goesOn _ =>
        exact goesOn

end Coprocessor.Machine
