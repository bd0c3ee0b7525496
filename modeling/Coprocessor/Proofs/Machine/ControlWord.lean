import Coprocessor.Proofs.Assembly.Depth
import Coprocessor.Proofs.Machine.Run

namespace Coprocessor.Machine

open Assembly

/-!
# The control word

The control word of the coprocessor says how numbers are rounded. Code that
rounds a number down sets it for one instruction and puts it back. Here the code
is toured on every way through it, at each jump with a condition on either one,
and of all that the machine holds only its words are kept track of: what an
instruction makes of numbers may be anything.

Such code is checked in the order of its lines. Between the instruction that
saves the control word and the one that restores it stands nothing but the
change of the word and the conversion, and neither a label nor a jump.
-/

/--
The words that the machine holds: its control word, its accumulator
and those in memory.
-/
structure Words where
  control : BitVec 16
  accumulator : BitVec 16
  memory : String → BitVec 16

/-- Put a word in a cell. -/
def Words.put
    (words : Words)
    (target : Cell)
    (word : BitVec 16) :
    Words :=
  { words with memory := Function.update words.memory target.name word }

theorem Words.put_self
    (words : Words)
    (target : Cell)
    (word : BitVec 16) :
    (words.put target word).memory target.name = word :=
  Function.update_self _ _ _

theorem Words.put_of_ne
    (words : Words)
    {target cell : Cell}
    (word : BitVec 16)
    (targetProper : target.IsProper)
    (cellProper : cell.IsProper)
    (different : cell ≠ target) :
    (words.put target word).memory cell.name = words.memory cell.name :=
  Function.update_of_ne
    (Cell.name_ne_of_proper cellProper targetProper different) _ _

/--
What an instruction may do to the words. Where a number is stored, any
word may stand then.
-/
def InstrAlters
    (before after : Words) :
    Instr → Prop
  | .store target | .storeInteger target =>
      ∃ word, after = before.put target word
  | .storeStatus => ∃ word, after = { before with accumulator := word }
  | .storeControl target => after = before.put target before.control
  | .loadControl source =>
      after = { before with control := before.memory source.name }
  | .loadAccumulator source =>
      after = { before with accumulator := before.memory source.name }
  | .storeAccumulator target => after = before.put target before.accumulator
  | .maskAccumulator mask =>
      after = { before with accumulator := before.accumulator &&& mask }
  | .raiseAccumulator mask =>
      after = { before with accumulator := before.accumulator ||| mask }
  | .load _ | .loadInteger _ | .loadZero | .loadOne | .discard | .combine _
  | .subtractCell _
  | .test | .setFlags | .jump _ _ => after = before

/--
What a line may do to the words. A directive may be an instruction
on the accumulator.
-/
def Alters
    (before after : Words) :
    Line → Prop
  | .instr code _ => InstrAlters before after code
  | .directive _ => ∃ word, after = { before with accumulator := word }
  | .blank | .comment _ | .remark _ | .declare _ | .label _ => after = before

/-- Every line can be passed, whatever the words are. -/
theorem exists_alters
    (before : Words)
    (line : Line) :
    ∃ after, Alters before after line := by
  cases line with
  | instr code column =>
      cases code <;> simp [Alters, InstrAlters, exists_comm]
  | _ =>
      simp [Alters, exists_comm]

/--
A way through the code from the first line to a position, with the
words on arrival.
-/
inductive Tour (code : List Line) (initial : Words) : Nat → Words → Prop where
  | start :
      Tour code initial 0 initial
  | next
      {position following : Nat}
      {line : Line}
      {before after : Words} :
      Tour code initial position before →
      code[position]? = some line →
      following ∈ successors code position →
      Alters before after line →
      Tour code initial following after

/-- Every walk is a tour, from whatever words. -/
theorem exists_tour_of_walk
    {code passed : List Line}
    {position : Nat}
    (walk : Walk code passed position)
    (initial : Words) :
    ∃ words, Tour code initial position words := by
  induction walk with
  | start =>
      exact ⟨initial, .start⟩
  | @next passed position following line walk lineAt goesOn
      inductionHypothesis =>
      obtain ⟨before, tour⟩ := inductionHypothesis
      obtain ⟨after, alters⟩ := exists_alters before line
      exact ⟨after, tour.next lineAt goesOn alters⟩

section Runs

variable
    {Value : Type}
    {numerics : Numerics Value}
    {code : List Line}

/-- The word in a cell, zero for a number. -/
def Content.toWord : Content Value → BitVec 16
  | .word value => value
  | .real _ | .integer _ => 0

/-- The words of the machine. -/
def Core.words (core : Core Value) : Words where
  control := core.control
  accumulator := core.accumulator
  memory := fun name => (core.memory name).toWord

theorem Core.words_put
    (core : Core Value)
    (target : Cell)
    (content : Content Value) :
    (core.put target content).words = core.words.put target content.toWord := by
  simp only [Core.words, Core.put, Words.put]
  congr 1
  funext name
  by_cases same : name = target.name
  · simp [same]
  · simp [Function.update_of_ne same]

theorem words_of_push
    {core next : Core Value}
    {value : Value}
    (pushes : push numerics value core = some next) :
    next.words = core.words := by
  rw [push] at pushes
  split at pushes
  · obtain rfl := Option.some.inj pushes
    rfl
  · cases pushes

/--
An instruction that the machine carries out alters its words as an
instruction may.
-/
theorem instrAlters_of_execute
    {core next : Core Value}
    {instruction : Instr}
    (executes : execute numerics core instruction = some next) :
    InstrAlters core.words next.words instruction := by
  cases instruction with
  | loadZero | loadOne =>
      exact words_of_push executes
  | load source | loadInteger source =>
      simp only [execute] at executes
      split at executes
      · exact words_of_push executes
      · cases executes
  | store target | storeInteger target =>
      simp only [execute] at executes
      split at executes
      · obtain rfl := Option.some.inj executes
        exact ⟨_, Core.words_put _ target _⟩
      · cases executes
  | discard | combine operation | test | subtractCell source =>
      simp only [execute] at executes
      split at executes
      · obtain rfl := Option.some.inj executes
        rfl
      · cases executes
  | storeStatus =>
      obtain rfl := Option.some.inj executes
      exact ⟨core.status, rfl⟩
  | storeControl target | storeAccumulator target =>
      obtain rfl := Option.some.inj executes
      exact Core.words_put core target _
  | loadControl source | loadAccumulator source =>
      simp only [execute] at executes
      split at executes
      case h_1 word found =>
          obtain rfl := Option.some.inj executes
          simp only [InstrAlters, Core.words, found, Content.toWord]
      case h_2 =>
          cases executes
  | setFlags | maskAccumulator mask | raiseAccumulator mask
  | jump condition target =>
      obtain rfl := Option.some.inj executes
      rfl

theorem alters_of_effect
    {core next : Core Value}
    {line : Line}
    (passes : effect numerics core line = some next) :
    Alters core.words next.words line := by
  cases line with
  | instr code column =>
      exact instrAlters_of_execute passes
  | directive text =>
      obtain rfl := Option.some.inj passes
      exact ⟨core.accumulator, rfl⟩
  | blank | comment text | remark text | declare declaration | label name =>
      obtain rfl := Option.some.inj passes
      rfl

/-- A jump alters no word. -/
theorem alters_of_jump
    {line : Line}
    {condition : Condition}
    {target : Label}
    (isJump : line.control? = some (.jump condition target))
    (words : Words) :
    Alters words words line := by
  cases line with
  | instr code column =>
      cases code <;> simp_all [Line.control?, Alters, InstrAlters]
  | _ =>
      simp [Line.control?] at isJump

/--
A step of the machine goes one way on from its position and alters the words.
-/
theorem alters_of_step
    {before after : State Value}
    (steps : step numerics code before = some after) :
    ∃ line, code[before.position]? = some line ∧
      after.position ∈ successors code before.position ∧
        Alters before.core.words after.core.words line := by
  rw [step] at steps
  cases lineAt : code[before.position]? with
  | none =>
      rw [lineAt] at steps
      cases steps
  | some line =>
      simp only [lineAt] at steps
      refine ⟨line, rfl, ?_⟩
      split at steps
      · cases steps
      rw [successors, lineAt]
      dsimp only
      split at steps
      case h_1 condition target isJump =>
          have unaltered := alters_of_jump isJump before.core.words
          split at steps
          case isTrue =>
              obtain ⟨position, resolved, rfl⟩ :=
                Option.map_eq_some_iff.mp steps
              refine ⟨?_, unaltered⟩
              cases condition <;> simp [isJump, resolved]
          case isFalse notTaken =>
              obtain rfl := Option.some.inj steps
              refine ⟨?_, unaltered⟩
              cases condition with
              | always =>
                  exact absurd rfl notTaken
              | _ =>
                  simp [isJump]
      case h_2 notJump =>
          obtain ⟨core, passes, rfl⟩ := Option.map_eq_some_iff.mp steps
          refine ⟨?_, alters_of_effect passes⟩
          split
          case h_1 target isJump =>
              exact absurd isJump (notJump _ _)
          case h_2 condition target isJump =>
              exact absurd isJump (notJump _ _)
          case h_3 =>
              exact List.mem_singleton_self _

/-- A run of the machine is a tour. -/
theorem tour_of_run
    {count : Nat}
    {initial : Words}
    {start final : State Value}
    (tour : Tour code initial start.position start.core.words)
    (runs : run numerics code count start = some final) :
    Tour code initial final.position final.core.words := by
  induction count generalizing start with
  | zero =>
      obtain rfl := Option.some.inj runs
      exact tour
  | succ count inductionHypothesis =>
      obtain ⟨middle, steps, later⟩ := Option.bind_eq_some_iff.mp runs
      obtain ⟨line, lineAt, goesOn, alters⟩ := alters_of_step steps
      exact inductionHypothesis (tour.next lineAt goesOn alters) later

end Runs

/-- No line but one that sets the control word alters it. -/
theorem control_of_alters
    {before after : Words}
    {line : Line}
    (alters : Alters before after line)
    (notSetting : ∀ source column, line ≠ .instr (.loadControl source) column) :
    after.control = before.control := by
  cases line with
  | instr code column =>
      cases code with
      | loadControl source =>
          exact absurd rfl (notSetting source column)
      | store target | storeInteger target | storeStatus =>
          obtain ⟨word, rfl⟩ := alters
          rfl
      | _ =>
          obtain rfl := alters
          rfl
  | directive text =>
      obtain ⟨word, rfl⟩ := alters
      rfl
  | blank | comment text | remark text | declare declaration | label name =>
      obtain rfl := alters
      rfl

/-- Whether a line rounds a number to an integer or sets the control word. -/
def concernsRounding : Line → Bool
  | .instr (.storeInteger _) _ | .instr (.loadControl _) _ => true
  | _ => false

/--
How far the code has come in changing the control word for a
conversion and back.
-/
inductive Phase where
  /-- The control word is as at first. -/
  | settled
  /-- The control word is saved. -/
  | saved
  /-- The saved word is in the accumulator. -/
  | copied
  /-- The accumulator holds it with its rounding cleared. -/
  | cleared
  /-- The accumulator holds it with its rounding set down. -/
  | lowered
  /-- The word in the accumulator is stored. -/
  | stored
  /-- The control word asks for rounding down. -/
  | switched
  deriving Repr, DecidableEq

/-- A control word with its rounding set down. -/
def roundingDown (control : BitVec 16) : BitVec 16 :=
  (control &&& 0xF3FF) ||| 0x0400

namespace Phase

/-- The phase after a line, unless the line is out of place. -/
def after : Phase → Line → Option Phase
  | .settled, .instr (.storeControl .savedControl) _ => some .saved
  | .settled, .instr (.storeInteger _) _
  | .settled, .instr (.loadControl _) _ => none
  | .settled, _ => some .settled
  | .saved, .instr (.loadAccumulator .savedControl) _ => some .copied
  | .copied, .instr (.maskAccumulator 0xF3FF) _ => some .cleared
  | .cleared, .instr (.raiseAccumulator 0x0400) _ => some .lowered
  | .lowered, .instr (.storeAccumulator .floorControl) _ => some .stored
  | .stored, .instr (.loadControl .floorControl) _ => some .switched
  | .switched, .instr (.storeInteger (.slot _)) _ => some .switched
  | .switched, .instr (.loadControl .savedControl) _ => some .settled
  | _, _ => none

/-- What the words are in a phase. -/
def Holds
    (initial : BitVec 16)
    (words : Words) :
    Phase → Prop
  | .settled => words.control = initial
  | .saved =>
      words.control = initial ∧ words.memory Cell.savedControl.name = initial
  | .copied =>
      words.control = initial ∧ words.memory Cell.savedControl.name = initial ∧
        words.accumulator = initial
  | .cleared =>
      words.control = initial ∧ words.memory Cell.savedControl.name = initial ∧
        words.accumulator = initial &&& 0xF3FF
  | .lowered =>
      words.control = initial ∧ words.memory Cell.savedControl.name = initial ∧
        words.accumulator = roundingDown initial
  | .stored =>
      words.control = initial ∧ words.memory Cell.savedControl.name = initial ∧
        words.memory Cell.floorControl.name = roundingDown initial
  | .switched =>
      words.control = roundingDown initial ∧
        words.memory Cell.savedControl.name = initial

/-- The control word is as at first until it has been switched. -/
theorem Holds.control
    {initial : BitVec 16}
    {words : Words}
    {phase : Phase}
    (holds : phase.Holds initial words)
    (notSwitched : phase ≠ .switched) :
    words.control = initial := by
  cases phase with
  | settled =>
      exact holds
  | saved | copied | cleared | lowered | stored =>
      exact holds.1
  | switched =>
      exact absurd rfl notSwitched

/--
A line that is in its place takes the words from its phase to the next one.
-/
theorem Holds.after
    {initial : BitVec 16}
    {words altered : Words}
    {phase next : Phase}
    {line : Line}
    (holds : phase.Holds initial words)
    (passes : phase.after line = some next)
    (alters : Alters words altered line) :
    next.Holds initial altered := by
  fun_cases Phase.after phase line
  case case4 notSaving notConverting notSwitching =>
      obtain rfl : settled = next := by simpa [Phase.after, *] using passes
      exact (control_of_alters alters notSwitching).trans holds
  case case12 =>
      simp [Phase.after, *] at passes
  all_goals
      cases passes
  case case1 column =>
      obtain rfl := alters
      exact ⟨holds, (words.put_self .savedControl _).trans holds⟩
  case case5 column =>
      obtain rfl := alters
      exact ⟨holds.1, holds.2, holds.2⟩
  case case6 column =>
      obtain rfl := alters
      exact ⟨holds.1, holds.2.1, congrArg (· &&& 0xF3FF) holds.2.2⟩
  case case7 column =>
      obtain rfl := alters
      exact ⟨holds.1, holds.2.1, congrArg (· ||| 0x0400) holds.2.2⟩
  case case8 column =>
      obtain rfl := alters
      have savedStays :
          (words.put .floorControl words.accumulator).memory
            Cell.savedControl.name =
            words.memory Cell.savedControl.name :=
        words.put_of_ne words.accumulator trivial trivial nofun
      exact ⟨holds.1, savedStays.trans holds.2.1,
        (words.put_self .floorControl _).trans holds.2.2⟩
  case case9 column =>
      obtain rfl := alters
      exact ⟨holds.2.2, holds.2.1⟩
  case case10 number column =>
      obtain ⟨word, rfl⟩ := alters
      have savedStays :
          (words.put (.slot number) word).memory Cell.savedControl.name =
          words.memory Cell.savedControl.name :=
        words.put_of_ne word trivial trivial nofun
      exact ⟨holds.1, savedStays.trans holds.2⟩
  case case11 column =>
      obtain rfl := alters
      exact holds.2

section Places

variable
    {phase next : Phase}

/-- Labels and jumps stand where the control word is as at first. -/
theorem settled_of_control
    {line : Line}
    {control : Control}
    (isControl : line.control? = some control)
    (passes : phase.after line = some next) :
    phase = .settled ∧ next = .settled := by
  cases line with
  | label name =>
      cases phase <;> cases passes
      exact ⟨rfl, rfl⟩
  | instr code column =>
      cases code with
      | jump condition target =>
          cases phase <;> cases passes
          exact ⟨rfl, rfl⟩
      | _ =>
          cases isControl
  | _ =>
      cases isControl

/-- Conversions stand where the control word asks for rounding down. -/
theorem switched_of_conversion
    {target : Cell}
    {column : Nat}
    (passes : phase.after (.instr (.storeInteger target) column) = some next) :
    phase = .switched := by
  cases phase <;> first | rfl | cases passes

/--
Where the control word asks for rounding down stands no line that is
not concerned.
-/
theorem not_switched_of_unconcerned
    {line : Line}
    (unconcerned : concernsRounding line = false)
    (passes : phase.after line = some next) :
    phase ≠ .switched := by
  rintro rfl
  cases line with
  | instr code column =>
      cases code with
      | storeInteger target | loadControl source =>
          cases unconcerned
      | _ =>
          cases passes
  | _ =>
      cases passes

end Places

end Phase

/-- The phase after lines that are checked one after the other. -/
def phaseAfter
    (phase : Phase)
    (lines : List Line) :
    Option Phase :=
  lines.foldlM Phase.after phase

@[simp] theorem phaseAfter_append
    (phase : Phase)
    (first second : List Line) :
    phaseAfter phase (first ++ second) =
      (phaseAfter phase first).bind fun middle => phaseAfter middle second :=
  List.foldlM_append

theorem phaseAfter_singleton
    (phase : Phase)
    (line : Line) :
    phaseAfter phase [line] = phase.after line := by
  simp [phaseAfter]

/-- The lines in front of a position leave the control word as at first. -/
def Settled
    (code : List Line)
    (position : Nat) :
    Prop :=
  phaseAfter .settled (code.take position) = some .settled

theorem settled_zero (code : List Line) : Settled code 0 :=
  rfl

/-- Lines that keep the control word keep it where they stand. -/
theorem Settled.behind
    {code lines : List Line}
    {position : Nat}
    (settled : Settled code position)
    (placed : Placed code position lines)
    (keeps : phaseAfter .settled lines = some .settled) :
    Settled code (position + lines.length) := by
  obtain ⟨rest, shape⟩ := placed
  have split :
      code.take (position + lines.length) = code.take position ++ lines := by
    rw [List.take_add, ← shape, List.take_left]
  rw [Settled, split, phaseAfter_append, settled, Option.bind_some, keeps]

section Checked

variable
    {code : List Line}
    {final : Phase}
    (checked : phaseAfter .settled code = some final)

include checked

/-- Every line of checked code is in its place. -/
theorem exists_phase_of_line
    {line : Line}
    {position : Nat}
    (lineAt : code[position]? = some line) :
    ∃ phase next,
      phaseAfter .settled (code.take position) = some phase ∧
        phase.after line = some next ∧
          phaseAfter .settled (code.take (position + 1)) = some next := by
  have inFront : code.take (position + 1) = code.take position ++ [line] := by
    rw [List.take_add_one, lineAt, Option.toList_some]
  have whole := checked
  rw [← List.take_append_drop (position + 1) code, phaseAfter_append] at whole
  obtain ⟨next, nextPhase, -⟩ := Option.bind_eq_some_iff.mp whole
  have both := nextPhase
  rw [inFront, phaseAfter_append] at both
  obtain ⟨phase, ownPhase, passes⟩ := Option.bind_eq_some_iff.mp both
  rw [phaseAfter_singleton] at passes
  exact ⟨phase, next, ownPhase, passes, nextPhase⟩

/--
On every tour the words are those of the phase that belongs to the position.
-/
theorem exists_phase_of_tour
    {initial words : Words}
    {position : Nat}
    (tour : Tour code initial position words) :
    ∃ phase,
      phaseAfter .settled (code.take position) = some phase ∧
        phase.Holds initial.control words := by
  induction tour with
  | start =>
      exact ⟨.settled, rfl, rfl⟩
  | @next position following line before after tour lineAt goesOn alters
      inductionHypothesis =>
      obtain ⟨_, samePhase, holds⟩ := inductionHypothesis
      obtain ⟨phase, next, ownPhase, passes, nextPhase⟩ :=
        exists_phase_of_line checked lineAt
      obtain rfl := Option.some.inj (samePhase.symm.trans ownPhase)
      have nextHolds := holds.after passes alters
      rcases successors_cases lineAt goesOn with
        rfl | ⟨condition, target, isJump, resolved⟩
      · exact ⟨next, nextPhase, nextHolds⟩
      · -- A jump and the label it leads to are both settled.
        obtain ⟨-, rfl⟩ := Phase.settled_of_control isJump passes
        obtain ⟨landed, _, landedPhase, landedPasses, -⟩ :=
          exists_phase_of_line checked (label_of_labelPosition? resolved)
        obtain ⟨rfl, -⟩ := Phase.settled_of_control rfl landedPasses
        exact ⟨.settled, landedPhase, nextHolds⟩

theorem control_of_settled
    {initial words : Words}
    {position : Nat}
    (settled : Settled code position)
    (tour : Tour code initial position words) :
    words.control = initial.control := by
  obtain ⟨phase, ownPhase, holds⟩ := exists_phase_of_tour checked tour
  obtain rfl := Option.some.inj (ownPhase.symm.trans settled)
  exact holds

/--
On every tour a conversion is come to with the control word set to
rounding down.
-/
theorem control_of_conversion
    {initial words : Words}
    {position column : Nat}
    {target : Cell}
    (tour : Tour code initial position words)
    (lineAt : code[position]? = some (.instr (.storeInteger target) column)) :
    words.control = roundingDown initial.control := by
  obtain ⟨phase, ownPhase, holds⟩ := exists_phase_of_tour checked tour
  obtain ⟨_, _, samePhase, passes, -⟩ := exists_phase_of_line checked lineAt
  obtain rfl := Option.some.inj (ownPhase.symm.trans samePhase)
  obtain rfl := Phase.switched_of_conversion passes
  exact holds.1

/--
On every tour any other line is come to with the control word as at first.
-/
theorem control_of_unconcerned
    {initial words : Words}
    {position : Nat}
    {line : Line}
    (tour : Tour code initial position words)
    (lineAt : code[position]? = some line)
    (unconcerned : concernsRounding line = false) :
    words.control = initial.control := by
  obtain ⟨phase, ownPhase, holds⟩ := exists_phase_of_tour checked tour
  obtain ⟨_, _, samePhase, passes, -⟩ := exists_phase_of_line checked lineAt
  obtain rfl := Option.some.inj (ownPhase.symm.trans samePhase)
  exact holds.control (Phase.not_switched_of_unconcerned unconcerned passes)

end Checked

/--
Rounding down is asked for in two bits, and all others are left as they are.
-/
theorem getLsbD_roundingDown
    (control : BitVec 16)
    (bit : Nat) :
    (roundingDown control).getLsbD bit =
      if bit = 10 then
        true
      else if bit = 11 then
        false
      else
        control.getLsbD bit := by
  by_cases inside : bit < 16
  · interval_cases bit <;> simp [roundingDown]
  · rw [BitVec.getLsbD_of_ge _ _ (by omega),
      BitVec.getLsbD_of_ge _ _ (by omega), if_neg (by omega), if_neg (by omega)]

/--
The control word is looked after: on every tour of the code, from whatever
words, each conversion rounds down with all else in the control word as at
first, every line that neither converts nor sets the control word finds it as at
first, and so does whatever stands behind one of the given stretches. Each walk
through the code is such a tour, and so is each run of the machine, whatever it
takes for numbers.
-/
structure ControlRestored
    (code : List Line)
    (stretches : List Stretch) :
    Prop where
  roundsDown :
    ∀ {initial words : Words} {position column : Nat} {target : Cell},
      Tour code initial position words →
        code[position]? = some (.instr (.storeInteger target) column) →
          words.control.getLsbD 11 = false ∧ words.control.getLsbD 10 = true ∧
            ∀ bit, bit ≠ 10 → bit ≠ 11 →
              words.control.getLsbD bit = initial.control.getLsbD bit
  unchanged :
    ∀ {initial words : Words} {position : Nat} {line : Line},
      Tour code initial position words →
        code[position]? = some line → concernsRounding line = false →
          words.control = initial.control
  restored :
    ∀ {initial words : Words}, ∀ stretch ∈ stretches,
      Placed code stretch.start stretch.lines ∧
        (Tour code initial (stretch.start + stretch.lines.length) words →
          words.control = initial.control)
  toured :
    ∀ {passed : List Line} {position : Nat}, Walk code passed position →
      ∀ initial, ∃ words, Tour code initial position words
  simulated :
    ∀ {Value : Type} (numerics : Numerics Value) (core : Core Value)
      {count : Nat} {final : State Value},
      run numerics code count ⟨0, core⟩ = some final →
        Tour code core.words final.position final.core.words

/--
Code that passes the check restores the control word behind all that it settles.
-/
theorem controlRestored_of_checked
    {code : List Line}
    {final : Phase}
    {stretches : List Stretch}
    (checked : phaseAfter .settled code = some final)
    (settled : ∀ stretch ∈ stretches, Around code (Settled code) stretch) :
    ControlRestored code stretches where
  roundsDown := by
    intro initial words position column target tour lineAt
    rw [control_of_conversion checked tour lineAt]
    simp only [getLsbD_roundingDown]
    refine ⟨rfl, rfl, ?_⟩
    intro bit notTen notEleven
    rw [if_neg notTen, if_neg notEleven]
  unchanged := control_of_unconcerned checked
  restored := by
    intro initial words stretch member
    obtain ⟨placed, -, behind⟩ := settled stretch member
    exact ⟨placed, control_of_settled checked behind⟩
  toured := exists_tour_of_walk
  simulated _ _ := tour_of_run .start

end Coprocessor.Machine
