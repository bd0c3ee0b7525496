import Coprocessor.Proofs.Machine.Basic

namespace Coprocessor.Machine

open Assembly

/-!
# Runs of the machine

Runs are put together from pieces: straight lines of code, which are passed one
after the other, and single jumps.
-/

variable
    {Value : Type}
    {numerics : Numerics Value}
    {code : List Line}

theorem run_add
    (first second : Nat)
    (state : State Value) :
    run numerics code (first + second) state =
      (run numerics code first state).bind (run numerics code second) := by
  induction first generalizing state with
  | zero =>
      rw [Nat.zero_add, run, Option.bind_some]
  | succ count inductionHypothesis =>
      rw [Nat.succ_add, run, run, Option.bind_assoc]
      congr 1
      funext middle
      exact inductionHypothesis middle

variable
    (numerics code)

/-- The machine comes from one state to another. -/
def Reaches (start final : State Value) : Prop :=
  ∃ count, run numerics code count start = some final

/-- The machine neither stops nor gets stuck. -/
def Endless (start : State Value) : Prop :=
  ∀ count, ∃ state, run numerics code count start = some state

variable
    {numerics code}

theorem Reaches.refl (state : State Value) :
    Reaches numerics code state state :=
  ⟨0, rfl⟩

theorem Reaches.trans
    {first second third : State Value}
    (before : Reaches numerics code first second)
    (after : Reaches numerics code second third) :
    Reaches numerics code first third := by
  obtain ⟨firstCount, firstRun⟩ := before
  obtain ⟨secondCount, secondRun⟩ := after
  exact ⟨firstCount + secondCount,
    by rw [run_add, firstRun, Option.bind_some, secondRun]⟩

theorem Reaches.of_step
    {first second : State Value}
    (stepped : step numerics code first = some second) :
    Reaches numerics code first second :=
  ⟨1, by rw [run, stepped, Option.bind_some, run]⟩

/-- A state without a step is the only one of its kind that a run comes to. -/
theorem eq_of_stopped
    {start first second : State Value}
    (firstReached : Reaches numerics code start first)
    (firstStopped : step numerics code first = none)
    (secondReached : Reaches numerics code start second)
    (secondStopped : step numerics code second = none) :
    first = second := by
  obtain ⟨firstCount, firstRun⟩ := firstReached
  obtain ⟨secondCount, secondRun⟩ := secondReached
  have noneBehind :
      ∀ {state : State Value} {count : Nat},
        step numerics code state = none →
          run numerics code (count + 1) state = none := by
    intro state count stopped
    rw [run, stopped, Option.bind_none]
  rcases Nat.lt_trichotomy firstCount secondCount with before | same | behind
  · obtain ⟨rest, rfl⟩ := Nat.exists_eq_add_of_lt before
    rw [Nat.add_assoc, run_add, firstRun, Option.bind_some,
      noneBehind firstStopped] at secondRun
    cases secondRun
  · rw [same, secondRun] at firstRun
    exact (Option.some.inj firstRun).symm
  · obtain ⟨rest, rfl⟩ := Nat.exists_eq_add_of_lt behind
    rw [Nat.add_assoc, run_add, secondRun, Option.bind_some,
      noneBehind secondStopped] at firstRun
    cases firstRun

/-- At the end of the program there is no step. -/
theorem step_of_atExit
    {state : State Value}
    (atExit : AtExit code state) :
    step numerics code state = none := by
  rw [step, atExit]
  rfl

/--
Lines that are passed in their order: no jumps, and not the end of the program.
-/
def isStraight (line : Line) : Bool :=
  match line.control? with
  | some (.jump _ _) => false
  | _ => line != exitLine

variable
    (numerics)

/-- The effects of lines one after the other. -/
def passLines
    (core : Core Value) :
    List Line → Option (Core Value)
  | [] => some core
  | line :: rest =>
      match effect numerics core line with
      | none => none
      | some next => passLines next rest

variable
    {numerics}

theorem passLines_append
    (core : Core Value)
    (first second : List Line) :
    passLines numerics core (first ++ second) =
      (passLines numerics core first).bind fun middle =>
        passLines numerics middle second := by
  induction first generalizing core with
  | nil =>
      rfl
  | cons line rest inductionHypothesis =>
      rw [List.cons_append, passLines, passLines]
      cases effect numerics core line with
      | none =>
          rfl
      | some next =>
          exact inductionHypothesis next

theorem passLines_append_of_some
    {core middle final : Core Value}
    {first second : List Line}
    (before : passLines numerics core first = some middle)
    (after : passLines numerics middle second = some final) :
    passLines numerics core (first ++ second) = some final := by
  rw [passLines_append, before, Option.bind_some, after]

theorem step_of_straight
    {line : Line}
    {core next : Core Value}
    {position : Nat}
    (lineAt : code[position]? = some line)
    (straight : isStraight line = true)
    (passes : effect numerics core line = some next) :
    step numerics code ⟨position, core⟩ = some ⟨position + 1, next⟩ := by
  have notExit : line ≠ exitLine := by
    rintro rfl
    cases straight
  rw [step, lineAt]
  dsimp only
  rw [if_neg notExit]
  rw [isStraight] at straight
  split
  case h_1 condition target isJump =>
      rw [isJump] at straight
      cases straight
  case h_2 =>
      rw [passes, Option.map_some]

/-- Straight lines that stand in the code are passed with all their effects. -/
theorem reaches_passLines
    {lines : List Line}
    {core final : Core Value}
    {position : Nat}
    (placed : Placed code position lines)
    (straight : lines.all isStraight = true)
    (passes : passLines numerics core lines = some final) :
    Reaches numerics code ⟨position, core⟩
      ⟨position + lines.length, final⟩ := by
  induction lines generalizing core position with
  | nil =>
      obtain rfl := Option.some.inj passes
      exact .refl _
  | cons line rest inductionHypothesis =>
      rw [List.all_cons, Bool.and_eq_true] at straight
      rw [passLines] at passes
      cases next : effect numerics core line with
      | none =>
          rw [next] at passes
          cases passes
      | some middle =>
          rw [next] at passes
          have stepped := step_of_straight placed.head straight.1 next
          have later := inductionHypothesis placed.tail straight.2 passes
          rw [List.length_cons, Nat.add_comm rest.length, ← Nat.add_assoc]
          exact (Reaches.of_step stepped).trans later

section Jumps

variable
    {line : Line}
    {condition : Condition}
    {target : Label}
    {core : Core Value}
    {position : Nat}
    (lineAt : code[position]? = some line)
    (isJump : line.control? = some (.jump condition target))

include lineAt isJump

/-- A jump whose condition holds leads to its target. -/
theorem step_of_taken
    {following : Nat}
    (taken : core.flags.satisfy condition = true)
    (resolved : labelPosition? code target = some following) :
    step numerics code ⟨position, core⟩ = some ⟨following, core⟩ := by
  have notExit : line ≠ exitLine := by
    rintro rfl
    cases isJump
  simp only [step, lineAt, if_neg notExit, isJump, taken, ↓reduceIte, resolved,
    Option.map_some]

/-- A jump whose condition fails is passed. -/
theorem step_of_not_taken
    (notTaken : core.flags.satisfy condition = false) :
    step numerics code ⟨position, core⟩ = some ⟨position + 1, core⟩ := by
  have notExit : line ≠ exitLine := by
    rintro rfl
    cases isJump
  simp only [step, lineAt, if_neg notExit, isJump, notTaken, Bool.false_eq_true,
    ↓reduceIte]

end Jumps

/--
Whether the processor finds the carry flag set after a comparison with zero.
-/
def Sign.carry : Sign → Bool
  | .negative | .unordered => true
  | .zero | .positive => false

/--
Whether the processor finds the zero flag set after a comparison with zero.
-/
def Sign.zeroFlag : Sign → Bool
  | .zero | .unordered => true
  | .negative | .positive => false

/-- The flags that a comparison with zero sets, with all other flags clear. -/
def Flags.ofSign (sign : Sign) : Flags :=
  ⟨sign.carry, sign.zeroFlag, false, false⟩

theorem getLsbD_statusAfter
    (status : BitVec 16)
    (sign : Sign) :
    (statusAfter status sign).getLsbD 8 = sign.carry ∧
      (statusAfter status sign).getLsbD 14 = sign.zeroFlag := by
  cases sign <;> simp [statusAfter, Sign.carry, Sign.zeroFlag]

/--
The control word with which a quotient is converted asks for rounding down.
-/
theorem roundingOf_floor (control : BitVec 16) :
    roundingOf ((control &&& 0xF3FF) ||| 0x0400) = .down := by
  simp [roundingOf]

namespace Core

theorem put_self
    (core : Core Value)
    (target : Cell)
    (content : Content Value) :
    (core.put target content).memory target.name = content :=
  Function.update_self _ _ _

theorem put_of_ne
    (core : Core Value)
    {target cell : Cell}
    (content : Content Value)
    (targetProper : target.IsProper)
    (cellProper : cell.IsProper)
    (different : cell ≠ target) :
    (core.put target content).memory cell.name = core.memory cell.name :=
  Function.update_of_ne
    (Cell.name_ne_of_proper cellProper targetProper different) _ _

end Core

end Coprocessor.Machine
