import Coprocessor.Proofs.Compile.Depth
import Coprocessor.Proofs.Machine.ControlWord

namespace Coprocessor

open Assembly Machine

/-!
# The control word in compiled programs

Where quotients are rounded down, the code of a modulo changes the control word
for its conversion and puts it back, and no other code touches it. So all
compiled code passes the check of the control word, whatever variables are
called: what is stored in them is never taken for a control word.
-/

namespace Compile

/-- A modulo that rounds down changes the control word and puts it back. -/
theorem phaseAfter_moduloCode
    (left right quotient whole product result : Cell)
    (number : Nat) :
    phaseAfter .settled
        (moduloCode .floor left right quotient (.slot number) whole product
          result) =
      some .settled :=
  rfl

theorem phaseAfter_comparisonCode
    (mode : ComparisonResult)
    (relation : Relation)
    (left right result : Cell)
    (number : Nat) :
    phaseAfter .settled
      (comparisonCode mode relation left right result number) =
      some .settled := by
  cases mode <;> rfl

/-- Every piece of code leaves the control word as it finds it. -/
theorem kept_phase
    {options : Options}
    (isFloor : options.modulo = .floor) :
    Kept options fun lines => phaseAfter .settled lines = some .settled where
  nil := rfl
  append := by
    intro first second firstPhase secondPhase
    rw [phaseAfter_append, firstPhase, Option.bind_some, secondPhase]
  title _ := rfl
  zero _ _ := rfl
  literal _ _ := rfl
  copy _ _ := rfl
  arithmetic _ _ _ _ := rfl
  modulo := by
    rw [isFloor]
    intro left right quotient number whole product result
    exact phaseAfter_moduloCode left right quotient whole product result number
  comparison := phaseAfter_comparisonCode options.comparison
  conditionalStart _ _ := rfl
  otherBranch _ := rfl
  conditionalEnd _ := rfl
  choiceEnd _ := rfl
  loopStart _ := rfl
  loopTest _ _ := rfl
  loopEnd _ := rfl
  assign _ _ := rfl

end Compile

namespace Program

/--
Where quotients are rounded down, every compiled program restores the control
word behind each of its statements and expressions, and rounds down wherever it
converts a number.
-/
theorem control_restored
    (program : Program)
    (comparison : Compile.ComparisonResult)
    (literals : Compile.LiteralForm) :
    ControlRestored (program.listing ⟨comparison, .floor, literals⟩).code
      (program.stretches ⟨comparison, .floor, literals⟩) := by
  let options : Compile.Options := ⟨comparison, .floor, literals⟩
  let code := (program.listing options).code
  have kept :
      Compile.Kept options fun lines =>
        phaseAfter .settled lines = some .settled :=
    Compile.kept_phase rfl
  have behind :
      ∀ {lines : List Line} {position : Nat},
        phaseAfter .settled lines = some .settled → Placed code position lines →
          Settled code position → Settled code (position + lines.length) :=
    fun keeps placed settled => settled.behind placed keeps
  have header : phaseAfter .settled Compile.codeHeader = some .settled :=
    rfl
  have footer : phaseAfter .settled Compile.codeFooter = some .settled :=
    rfl
  have body := kept.of_statement (Compile.statementOf program.tree) .start
  have headerSettled : Settled code (0 + Compile.codeHeader.length) :=
    behind header ⟨_, (List.append_assoc _ _ _).symm⟩ (settled_zero code)
  rw [Nat.zero_add] at headerSettled
  refine controlRestored_of_checked
    (kept.append (kept.append header body) footer) ?_
  exact Compile.around_statement kept behind
    (Compile.around_part kept behind (placed_append _ _ _) headerSettled)

end Program

end Coprocessor
