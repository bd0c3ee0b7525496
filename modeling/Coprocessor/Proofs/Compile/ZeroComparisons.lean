import Coprocessor.Proofs.Compile.Preservation

namespace Coprocessor

open Assembly Machine

/-!
# Comparisons that always yield zero

In the code of older listings a comparison yields zero whichever way its jump
goes, and where the jump is not taken it leaves a number on the register stack.
Such numbers pile up below all that later code works with. On a stack without
bounds they do no harm, and the program means what its tree means if every
comparison is zero.
-/

namespace Machine

/-- Exact rational numbers on a register stack without bounds. -/
def Numerics.unbounded (byZero : ℚ) : Numerics ℚ :=
  { Numerics.exact byZero with hasRoom := fun _ => true }

end Machine

/--
Exact arithmetic where a comparison is zero and a modulo rounds its
quotient as given.
-/
def Meaning.zeroed
    (byZero : ℚ)
    (round : ℚ → Int) :
    Meaning ℚ :=
  { Meaning.exact byZero with
    modulo :=
      fun left right =>
        left - round (Arithmetic.exact byZero .divide left right) * right
    comparison := fun _ _ _ => 0 }

namespace Compile

section Comparison

variable
    {Value : Type}
    {numerics : Numerics Value}
    {code : List Line}

/--
The code of a comparison leaves zero on both ways, and on one of them a
number on the stack.
-/
theorem leads_zeroComparison
    {core : Core Value}
    {deep : List Value}
    {counters : Counters}
    {left right : Cell}
    {position : Nat}
    {first second : Value}
    (unique : (labels code).Nodup)
    (roomy : ∀ depth, numerics.hasRoom depth = true)
    (empty : core.registers = [])
    (leftHolds : core.memory left.name = .real first)
    (rightHolds : core.memory right.name = .real second)
    (relation : Relation)
    (number : Nat)
    (placed :
      Placed code position
        (comparisonCode .alwaysZero relation left right
          (.temporary (counters.cells + 1)) number)) :
    Leads (FreeMove numerics code) position (core.over deep)
      (position +
        (comparisonCode .alwaysZero relation left right
          (.temporary (counters.cells + 1)) number).length)
      (Evaluated (fun _ => True) counters (.temporary (counters.cells + 1))
        (numerics.ofRat 0) core) := by
  let title : String := "--- Comparison " ++ relation.sign ++ " ---"
  let head : List Line :=
    [.blank, .comment title, .code (.load left), .code (.subtractCell right)] ++
      flagsOfTop
  let middle : List Line := [.label ⟨.comparisonHolds, number⟩, .code .loadOne]
  let tail : List Line :=
    [.label ⟨.endOfComparison, number⟩, .code .discard, .code .loadZero,
      .code (.store (.temporary (counters.cells + 1))), .blank]
  have pieces :
      Placed code position
        (head ++
          (.instr (.jump (failsSigned relation) ⟨.endOfComparison, number⟩) 3 ::
          (middle ++
            (.code (.jump .always ⟨.endOfComparison, number⟩) :: tail)))) :=
    placed
  obtain ⟨headPlaced, jumpPlaced⟩ := pieces.split
  obtain ⟨middlePlaced, leapPlaced⟩ := jumpPlaced.tail.split
  have tailPlaced := leapPlaced.tail
  have follows := follows_freeMove numerics code
  have resolved := labelPosition?_eq_some unique tailPlaced.head
  -- The tail drops the topmost number, so it finds the same on both ways.
  have finish :
      ∀ {single : Core Value} {top : Value} {deeper : List Value},
        single.registers = [top] → single.memory = core.memory →
          single.control = core.control →
            Leads (FreeMove numerics code)
              (position + head.length + 1 + middle.length + 1)
              (single.over deeper)
              (position + head.length + 1 + middle.length + 1 + tail.length)
              (Evaluated (fun _ => True) counters
                (.temporary (counters.cells + 1)) (numerics.ofRat 0) core) := by
    intro single top deeper holdsOne sameMemory sameControl
    have stores :
        passLines (numerics.above deeper.length) single tail =
          some ({ single with registers := [] }.put
            (.temporary (counters.cells + 1)) (.real (numerics.ofRat 0))) := by
      simp [tail, Line.code, passLines, effect, execute, push, Core.put,
        holdsOne, roomy, Numerics.above]
    have dropped : { single with registers := [] }.registers = [] := rfl
    have leaves :=
      (leaves_put dropped counters (Nat.lt_succ_self _)
        (numerics.ofRat 0)).of_same sameMemory sameControl
    refine (follows.passLines tailPlaced rfl (passLines_over stores)).mono ?_
    rintro _ rfl
    exact ⟨_, deeper, rfl, trivial, leaves⟩
  have room :
      (numerics.above deep.length).hasRoom 0 = true ∧
        (numerics.above deep.length).hasRoom 1 = true :=
    ⟨roomy _, roomy _⟩
  obtain ⟨tested, tests, registers, memory, control, -, -⟩ :=
    passLines_comparisonTest room empty leftHolds rightHolds title
  refine (follows.passLines headPlaced rfl (passLines_over tests)).trans ?_
  rintro _ rfl
  refine leads_of_comparisonJump jumpPlaced.head ?_ rfl resolved ?_
    (finish registers memory control)
  · cases relation <;> rfl
  · let difference := numerics.combine .subtract first second
    have pushes :
        passLines (numerics.above deep.length) tested middle =
          some { tested with registers := [numerics.ofRat 1, difference] } := by
      simp [middle, Line.code, passLines, effect, execute, push, registers,
        roomy, Numerics.above, difference]
    refine (follows.passLines middlePlaced rfl (passLines_over pushes)).trans ?_
    rintro _ rfl
    refine (Leads.of_single (follows.jumps leapPlaced.head resolved _)
      rfl).trans ?_
    rintro _ rfl
    -- The tail drops the one, and the difference is from now on among
    -- what lies deep.
    have piled :
        ({ tested with
          registers := [numerics.ofRat 1, difference] } : Core Value).over deep =
          ({ tested with registers := [numerics.ofRat 1] } : Core Value).over
            (difference :: deep) :=
      rfl
    rw [piled]
    exact finish rfl memory control

/-- Comparisons that always yield zero may leave any numbers on the stack. -/
theorem conduct_freeMove
    {options : Options}
    {rounding : Rounding}
    {meaning : Meaning Value}
    (unique : (labels code).Nodup)
    (isZero : options.comparison = .alwaysZero)
    (roomy : ∀ depth, numerics.hasRoom depth = true)
    (computes : Computes numerics rounding meaning)
    (zero :
      ∀ relation left right,
        meaning.comparison relation left right = meaning.ofRat 0) :
    Conduct (FreeMove numerics code) numerics code options rounding meaning
      (fun _ => True) where
  unique := unique
  follows := follows_freeMove numerics code
  room := fun _ _ => ⟨roomy _, roomy _⟩
  computes := computes
  compares := by
    intro core deep first second left right counters position relation number _
      empty leftHolds rightHolds placed
    rw [isZero] at placed ⊢
    rw [zero, ← computes.ofRat]
    exact leads_zeroComparison unique roomy empty leftHolds rightHolds relation
      number placed

end Comparison

end Compile

theorem computes_unbounded
    (byZero : ℚ)
    (rounding : Rounding) :
    Compile.Computes (.unbounded byZero) rounding
      (.zeroed byZero ((Numerics.exact byZero).toInteger rounding)) where
  ofRat _ := rfl
  arithmetic _ _ _ := rfl
  modulo _ _ := rfl
  truth := (realizes_exact byZero).truth

namespace Program

/--
Where comparisons always yield zero, compiled programs mean what their trees
mean if every comparison is zero, for exact numbers on a stack without bounds
and for trees whose variables have no reserved name. Whichever way the machine
goes at the jump of a comparison, each time anew: where the tree comes to its
end the machine comes to the end of the program with the same values in the
variables, and it halts nowhere else. A modulo rounds its quotient down, or else
as the control word says.
-/
theorem zeroed_meaning_preserved
    (program : Program)
    (free :
      ∀ tag ∈ (program.tree.map Node.tag).identifiers,
        isReserved (Symbol.storedName tag) = false)
    (modulo : Compile.QuotientRounding)
    (byZero : ℚ)
    (cells : String → ℚ)
    (core : Core ℚ) :
    let listing :=
      program.listing
        { comparison := .alwaysZero, modulo := modulo, literals := .real }
    let moves := FreeMove (.unbounded byZero) listing.code
    let start := startOf (.unbounded byZero) listing cells core
    let round :=
      match modulo with
      | .floor => Int.floor
      | .ambient => (Numerics.exact byZero).toInteger (roundingOf core.control)
    (∀ after,
      Tree.Runs (.zeroed byZero round) (program.tree.map Node.tag) cells after →
      Inevitable moves
        (fun final => AtExit listing.code final ∧ final.core.Holds after)
        start) ∧
    (∀ final, Relation.ReflTransGen moves start final →
      (∀ next, ¬ moves final next) →
      AtExit listing.code final ∧
        ∃ after,
          Tree.Runs (.zeroed byZero round) (program.tree.map Node.tag)
            cells after ∧
          final.core.Holds after) := by
  intro listing moves start round
  let options : Compile.Options := ⟨.alwaysZero, modulo, .real⟩
  have sameRound :
      round =
        (Numerics.exact byZero).toInteger
          (Compile.quotientRounding core.control modulo) := by
    cases modulo <;> rfl
  have computes :=
    computes_unbounded byZero (Compile.quotientRounding core.control modulo)
  rw [← sameRound] at computes
  have conduct :
      Compile.Conduct moves (.unbounded byZero) listing.code options
        (Compile.quotientRounding core.control modulo) (.zeroed byZero round)
        (fun _ => True) :=
    Compile.conduct_freeMove (program.nested_code options).nodup_labels rfl
      (fun _ => rfl) computes (fun _ _ _ => rfl)
  obtain ⟨exit, exitAt, enacts⟩ := program.enacts_code conduct free
  have prepared :
      Compile.PreparedAbove (.unbounded byZero) options
        (Compile.quotientRounding core.control modulo) (fun _ => True)
        (program.fragment options).data cells start.core :=
    ⟨start.core, [], start.core.over_nil.symm, trivial,
      program.prepared_start (.unbounded byZero) options cells core⟩
  constructor
  · intro after runs
    refine (enacts.exits exitAt prepared (Stmt.runs_ofTree.mpr runs)).mono ?_
    rintro final ⟨atExit, clean, deep, shape, -, finalPrepared⟩
    refine ⟨atExit, ?_⟩
    rw [shape]
    exact finalPrepared.userCells
  · intro final reached halted
    obtain ⟨atExit, after, runs, clean, deep, shape, -, finalPrepared⟩ :=
      enacts.of_halted exitAt prepared (fun _ => not_freeMove_of_atExit _ _)
        reached halted
    refine ⟨atExit, after, Stmt.runs_ofTree.mp runs, ?_⟩
    rw [shape]
    exact finalPrepared.userCells

/--
A program with a loop on a comparison, and a sum of a comparison and a
remainder behind it.
-/
def halves : Program :=
  let built :=
    Store.empty.addTree
      (.node ";"
        (.node "while"
          (.node ">=" (.leaf "n") (.leaf "2"))
          (.node "=" (.leaf "n") (.node "%" (.leaf "n") (.leaf "2"))))
        (.node "=" (.leaf "x")
          (.node "+"
            (.node ">=" (.leaf "n") (.leaf "2"))
            (.node "%" (.leaf "n") (.leaf "2")))))
  ⟨built.1, (Symbol.Table.empty.insert (.ofName "n")).insert (.ofName "x"),
    built.2⟩

/--
With comparisons that are zero the loop of `halves` is left at once, and
seven halves are four.
-/
theorem runs_halves :
    Tree.Runs (.zeroed 0 nearestInteger) (halves.tree.map Node.tag) (fun _ => 7)
      (Function.update (fun _ => 7) "x" (-1)) := by
  have sum : Kind.ofTag "+" = .arithmetic .add := by
    decide
  have comparison : Kind.ofTag ">=" = .comparison .greaterOrEqual := by
    decide
  have modulo : Kind.ofTag "%" = .modulo := by
    decide
  have isVariable : Kind.ofTag "n" = .identifier := by
    decide
  have isLiteral : Kind.ofTag "2" = .literal := by
    decide
  have condition :
      Tree.value (.zeroed 0 nearestInteger) (fun _ => 7)
        (.node ">=" (.leaf "n") (.leaf "2")) = 0 := by
    simp only [Tree.value, comparison]
    rfl
  have nearest : nearestInteger (7 / 2) = 4 := by
    have below : ⌊(7 / 2 : ℚ)⌋ = 3 := by
      norm_num
    rw [nearestInteger, below, if_neg]
    · rfl
    · norm_num
  have value :
      Tree.value (.zeroed 0 nearestInteger) (fun _ => 7)
        (.node "+"
          (.node ">=" (.leaf "n") (.leaf "2"))
          (.node "%" (.leaf "n") (.leaf "2"))) = -1 := by
    rw [Tree.value, sum]
    dsimp only
    rw [condition]
    simp only [Tree.value, Tree.leaf, modulo, isVariable, isLiteral,
      literalValue_two, Meaning.zeroed, Meaning.exact, Arithmetic.exact]
    norm_num [nearest]
  have shape :
      halves.tree.map Node.tag =
        .node ";"
          (.node "while"
            (.node ">=" (.leaf "n") (.leaf "2"))
            (.node "=" (.leaf "n") (.node "%" (.leaf "n") (.leaf "2"))))
          (.node "=" (.leaf "x")
            (.node "+"
              (.node ">=" (.leaf "n") (.leaf "2"))
              (.node "%" (.leaf "n") (.leaf "2")))) := by
    decide
  rw [shape, ← value]
  refine .sequence (by decide) (.loopEnd (by decide) ?_)
    (.assignment (by decide) (by decide))
  rw [condition]
  exact fun differs => differs rfl

theorem zeroed_meaning_preserved_halves :
    let listing :=
      halves.listing
        { comparison := .alwaysZero, modulo := .ambient, literals := .real }
    let core :=
      ⟨[], fun _ => .word 0, 0x037F, 0, 0, ⟨false, false, false, false⟩⟩
    (halves.tree.map Node.tag).identifiers = ["n", "n", "n", "x", "n", "n"] ∧
      Inevitable (FreeMove (.unbounded 0) listing.code)
        (fun final =>
          AtExit listing.code final ∧ final.core.memory "n" = .real 7 ∧
            final.core.memory "x" = .real (-1))
        (startOf (.unbounded 0) listing (fun _ => 7) core) := by
  intro listing core
  have control : roundingOf core.control = .nearest := by
    decide
  have rounds :
      (Numerics.exact 0).toInteger (roundingOf core.control) =
        nearestInteger := by
    rw [control]
    rfl
  have runs := runs_halves
  rw [← rounds] at runs
  have inevitable :=
    (zeroed_meaning_preserved halves (by decide) .ambient 0 (fun _ => 7) core).1
      _ runs
  refine ⟨by decide, inevitable.mono ?_⟩
  rintro final ⟨atExit, holds⟩
  exact ⟨atExit, holds "n" (by decide), holds "x" (by decide)⟩

end Program

end Coprocessor
