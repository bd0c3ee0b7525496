import Coprocessor.Proofs.Language.Meaning
import Coprocessor.Proofs.Machine.Run
import Coprocessor.Proofs.Machine.Ways

namespace Coprocessor.Machine

open Assembly

/-!
# Code that simulates statements

A stretch of code enacts a statement if it does to the memory what the statement
does to its cells, on every way that the machine may go: it comes to its end
where the statement does, and it halts on no way where the statement does not
come to an end. What the memory has to do with the cells is left to a parameter,
and so are the moves of the machine. The stretches are put together as the
statements are; how the lines of each are laid out is no matter here, only how
the machine comes from one stretch to the next.

Where the moves are the steps of the machine there is one way only, and the code
simulates the statement.
-/

variable
    {Value : Type}

section Moves

variable
    (moves : State Value → State Value → Prop)

/--
On every way the machine comes from one position to another, where
something holds.
-/
def Leads
    (start : Nat)
    (core : Core Value)
    (finish : Nat)
    (holds : Core Value → Prop) :
    Prop :=
  Inevitable moves (fun final => final.position = finish ∧ holds final.core)
    ⟨start, core⟩

/-- The machine comes from one position to another with nothing else changed. -/
def Traverses (start finish : Nat) : Prop :=
  ∀ core, Leads moves start core finish (· = core)

variable
    (meaning : Meaning Value)
    (ready : (String → Value) → Core Value → Prop)

/-- The value of a condition decides between two positions. -/
def Decides
    (condition : Expr)
    (start onTrue onFalse : Nat) :
    Prop :=
  ∀ cells core, ready cells core →
    (meaning.IsTrue (condition.value meaning cells) →
      Leads moves start core onTrue (ready cells)) ∧
    (¬ meaning.IsTrue (condition.value meaning cells) →
      Leads moves start core onFalse (ready cells))

/-- The code between two positions does what a statement does. -/
structure Enacts
    (body : Stmt)
    (start finish : Nat) :
    Prop where
  ends :
    ∀ {before after core},
      Stmt.Runs meaning body before after → ready before core →
      Leads moves start core finish (ready after)
  ceaseless :
    ∀ {before core},
      (∀ after, ¬ Stmt.Runs meaning body before after) → ready before core →
      Ceaseless moves ⟨start, core⟩

variable
    {moves meaning ready}
    {start finish : Nat}

namespace Leads

variable
    {core : Core Value}
    {middle : Nat}
    {between holds : Core Value → Prop}

theorem here (held : holds core) : Leads moves start core start holds :=
  Inevitable.here ⟨rfl, held⟩

theorem trans
    (before : Leads moves start core middle between)
    (after : ∀ next, between next → Leads moves middle next finish holds) :
    Leads moves start core finish holds := by
  refine Inevitable.trans before ?_
  rintro ⟨_, next⟩ ⟨rfl, held⟩
  exact after next held

theorem mono
    (leads : Leads moves start core finish between)
    (weaker : ∀ next, between next → holds next) :
    Leads moves start core finish holds :=
  leads.trans fun next held => .here (weaker next held)

theorem ceaseless
    (before : Leads moves start core middle between)
    (after : ∀ next, between next → Ceaseless moves ⟨middle, next⟩) :
    Ceaseless moves ⟨start, core⟩ := by
  refine Inevitable.ceaseless before ?_
  rintro ⟨_, next⟩ ⟨rfl, held⟩
  exact after next held

/-- The only move at a position leads where it leads. -/
theorem of_single
    {next : Core Value}
    (single : ∀ other, moves ⟨start, core⟩ other ↔ other = ⟨finish, next⟩)
    (held : holds next) :
    Leads moves start core finish holds :=
  (Progresses.of_single single (.here ⟨rfl, held⟩)).inevitable

end Leads

theorem Traverses.leads
    {middle : Nat}
    {core : Core Value}
    {holds : Core Value → Prop}
    (traverses : Traverses moves start middle)
    (later : Leads moves middle core finish holds) :
    Leads moves start core finish holds := by
  refine (traverses core).trans ?_
  rintro _ rfl
  exact later

theorem Decides.enter
    {condition : Expr}
    {earlier onTrue onFalse : Nat}
    (traverses : Traverses moves earlier start)
    (decides : Decides moves meaning ready condition start onTrue onFalse) :
    Decides moves meaning ready condition earlier onTrue onFalse := by
  intro cells core prepared
  obtain ⟨leadsTrue, leadsFalse⟩ := decides cells core prepared
  exact ⟨fun holds => traverses.leads (leadsTrue holds),
    fun fails => traverses.leads (leadsFalse fails)⟩

namespace Enacts

/--
A statement that always comes to an end has to be followed to its end only.
-/
theorem of_total
    {body : Stmt}
    (total : ∀ before, ∃ after, Stmt.Runs meaning body before after)
    (ends :
      ∀ {before after core},
        Stmt.Runs meaning body before after → ready before core →
        Leads moves start core finish (ready after)) :
    Enacts moves meaning ready body start finish where
  ends := ends
  ceaseless := by
    intro before core never
    obtain ⟨after, runs⟩ := total before
    exact absurd runs (never after)

theorem skip (start : Nat) :
    Enacts moves meaning ready .skip start start := by
  refine of_total (fun before => ⟨before, .skip before⟩) ?_
  intro before after core runs prepared
  cases runs
  exact .here prepared

theorem enter
    {body : Stmt}
    {earlier : Nat}
    (traverses : Traverses moves earlier start)
    (enacts : Enacts moves meaning ready body start finish) :
    Enacts moves meaning ready body earlier finish where
  ends := by
    intro before after core runs prepared
    exact traverses.leads (enacts.ends runs prepared)
  ceaseless := by
    intro before core never prepared
    refine (traverses core).ceaseless ?_
    rintro _ rfl
    exact enacts.ceaseless never prepared

theorem leave
    {body : Stmt}
    {later : Nat}
    (enacts : Enacts moves meaning ready body start finish)
    (traverses : Traverses moves finish later) :
    Enacts moves meaning ready body start later where
  ends := by
    intro before after core runs prepared
    refine (enacts.ends runs prepared).trans ?_
    intro next nextPrepared
    exact traverses.leads (.here nextPrepared)
  ceaseless := enacts.ceaseless

theorem sequence
    {first second : Stmt}
    {middle : Nat}
    (firstEnacts : Enacts moves meaning ready first start middle)
    (secondEnacts : Enacts moves meaning ready second middle finish) :
    Enacts moves meaning ready (.sequence first second) start finish where
  ends := by
    intro before after core runs prepared
    cases runs with
    | sequence firstRuns secondRuns =>
        refine (firstEnacts.ends firstRuns prepared).trans ?_
        intro next nextPrepared
        exact secondEnacts.ends secondRuns nextPrepared
  ceaseless := by
    intro before core never prepared
    by_cases firstEnds : ∃ between, Stmt.Runs meaning first before between
    · obtain ⟨between, firstRuns⟩ := firstEnds
      refine (firstEnacts.ends firstRuns prepared).ceaseless ?_
      intro next nextPrepared
      refine secondEnacts.ceaseless ?_ nextPrepared
      intro after secondRuns
      exact never after (.sequence firstRuns secondRuns)
    · exact firstEnacts.ceaseless (not_exists.mp firstEnds) prepared

section Branches

variable
    {condition : Expr}
    {trueStart falseStart : Nat}
    (decides : Decides moves meaning ready condition start trueStart falseStart)

include decides

theorem choice
    {onTrue onFalse : Stmt}
    (trueEnacts : Enacts moves meaning ready onTrue trueStart finish)
    (falseEnacts : Enacts moves meaning ready onFalse falseStart finish) :
    Enacts moves meaning ready (.choice condition onTrue onFalse) start
      finish where
  ends := by
    intro before after core runs prepared
    obtain ⟨leadsTrue, leadsFalse⟩ := decides before core prepared
    cases runs with
    | choiceTrue holds branch =>
        exact (leadsTrue holds).trans fun _ testedPrepared =>
          trueEnacts.ends branch testedPrepared
    | choiceFalse fails branch =>
        exact (leadsFalse fails).trans fun _ testedPrepared =>
          falseEnacts.ends branch testedPrepared
  ceaseless := by
    intro before core never prepared
    obtain ⟨leadsTrue, leadsFalse⟩ := decides before core prepared
    by_cases holds : meaning.IsTrue (condition.value meaning before)
    · refine (leadsTrue holds).ceaseless fun _ testedPrepared =>
        trueEnacts.ceaseless ?_ testedPrepared
      exact fun after branch => never after (.choiceTrue holds branch)
    · refine (leadsFalse holds).ceaseless fun _ testedPrepared =>
        falseEnacts.ceaseless ?_ testedPrepared
      exact fun after branch => never after (.choiceFalse holds branch)

theorem conditional
    {body : Stmt}
    (bodyEnacts : Enacts moves meaning ready body trueStart falseStart) :
    Enacts moves meaning ready (.conditional condition body) start
      falseStart where
  ends := by
    intro before after core runs prepared
    exact (choice decides bodyEnacts (skip falseStart)).ends
      (Stmt.runs_conditional_iff_choice.mp runs) prepared
  ceaseless := by
    intro before core never prepared
    refine (choice decides bodyEnacts (skip falseStart)).ceaseless ?_ prepared
    exact fun after runs =>
      never after (Stmt.runs_conditional_iff_choice.mpr runs)

end Branches

section Loops

variable
    {condition : Expr}
    {body : Stmt}
    {bodyStart bodyEnd : Nat}
    (decides : Decides moves meaning ready condition start bodyStart finish)
    (bodyEnacts : Enacts moves meaning ready body bodyStart bodyEnd)
    (back : ∀ core other, moves ⟨bodyEnd, core⟩ other ↔ other = ⟨start, core⟩)

include decides bodyEnacts back

/-- A loop that ends is followed pass by pass. -/
theorem loop_ends
    {before after : String → Value}
    {core : Core Value}
    (runs : Stmt.Runs meaning (.loop condition body) before after)
    (prepared : ready before core) :
    Leads moves start core finish (ready after) := by
  generalize isLoop : Stmt.loop condition body = whole at runs
  induction runs generalizing core with
  | @loopEnd _ _ cells fails =>
      obtain ⟨rfl, rfl⟩ := Stmt.loop.inj isLoop
      exact (decides cells core prepared).2 fails
  | @loopPass _ _ cells _ _ holds bodyRuns _ _ laterPasses =>
      obtain ⟨rfl, rfl⟩ := Stmt.loop.inj isLoop
      refine ((decides cells core prepared).1 holds).trans ?_
      intro tested testedPrepared
      refine (bodyEnacts.ends bodyRuns testedPrepared).trans ?_
      intro passed passedPrepared
      exact (Leads.of_single (back passed) rfl).trans fun next same =>
        laterPasses (same ▸ passedPrepared) rfl
  | _ =>
      cases isLoop

theorem loop :
    Enacts moves meaning ready (.loop condition body) start finish where
  ends := loop_ends decides bodyEnacts back
  ceaseless := by
    intro before core never prepared
    -- As long as the loop has not ended the machine comes back to its start,
    -- unless the body itself never ends.
    let going (state : State Value) : Prop :=
      state.position = start ∧
        ∃ cells, ready cells state.core ∧
          ∀ after, ¬ Stmt.Runs meaning (.loop condition body) cells after
    refine ceaseless_of_progress going ?_ ⟨rfl, before, prepared, never⟩
    rintro ⟨_, current⟩ ⟨rfl, cells, currentPrepared, neverEnds⟩
    have holds : meaning.IsTrue (condition.value meaning cells) := by
      by_contra fails
      exact neverEnds cells (.loopEnd fails)
    have toBody := (decides cells current currentPrepared).1 holds
    by_cases bodyEnds : ∃ between, Stmt.Runs meaning body cells between
    · obtain ⟨between, bodyRuns⟩ := bodyEnds
      have toEnd :=
        toBody.trans fun _ testedPrepared =>
          bodyEnacts.ends bodyRuns testedPrepared
      refine .inr (Inevitable.progresses toEnd ?_)
      rintro ⟨_, passed⟩ ⟨rfl, passedPrepared⟩
      refine .of_single (back passed) (.here ⟨rfl, between, passedPrepared, ?_⟩)
      exact fun after later => neverEnds after (.loopPass holds bodyRuns later)
    · refine .inl (toBody.ceaseless fun _ testedPrepared => ?_)
      exact bodyEnacts.ceaseless (not_exists.mp bodyEnds) testedPrepared

end Loops

section Halting

variable
    {code : List Line}
    {body : Stmt}
    {before : String → Value}
    {core : Core Value}
    (enacts : Enacts moves meaning ready body start finish)
    (exitAt : code[finish]? = some exitLine)
    (prepared : ready before core)

include enacts exitAt prepared

/--
Where the statement ends the machine comes to the end of the
program on every way.
-/
theorem exits
    {after : String → Value}
    (runs : Stmt.Runs meaning body before after) :
    Inevitable moves (fun final => AtExit code final ∧ ready after final.core)
      ⟨start, core⟩ := by
  refine Inevitable.mono (enacts.ends runs prepared) ?_
  rintro ⟨_, final⟩ ⟨rfl, finalPrepared⟩
  exact ⟨exitAt, finalPrepared⟩

/--
The machine halts at the end of the program only, and only where the
statement ends.
-/
theorem of_halted
    (atExit : ∀ state, AtExit code state → ∀ next, ¬ moves state next)
    {final : State Value}
    (reached : Relation.ReflTransGen moves ⟨start, core⟩ final)
    (halted : ∀ next, ¬ moves final next) :
    AtExit code final ∧
      ∃ after, Stmt.Runs meaning body before after ∧
      ready after final.core := by
  by_cases ends : ∃ after, Stmt.Runs meaning body before after
  · obtain ⟨after, runs⟩ := ends
    obtain ⟨exited, finalPrepared⟩ :=
      (enacts.exits exitAt prepared runs).of_halted
        (fun state goal => atExit state goal.1) reached halted
    exact ⟨exited, after, runs, finalPrepared⟩
  · obtain ⟨next, move⟩ :=
      enacts.ceaseless (not_exists.mp ends) prepared final reached
    exact absurd move (halted next)

end Halting

end Enacts

end Moves

section Steps

variable
    (numerics : Numerics Value)
    (code : List Line)

/-- A move of the machine that is one of its steps. -/
def StepMove (before after : State Value) : Prop :=
  step numerics code before = some after

variable
    {numerics code}

theorem inevitable_of_run
    {goal : State Value → Prop}
    {count : Nat}
    {state final : State Value}
    (runs : run numerics code count state = some final)
    (reached : goal final) :
    Inevitable (StepMove numerics code) goal state := by
  induction count generalizing state with
  | zero =>
      obtain rfl := Option.some.inj runs
      exact .here reached
  | succ count inductionHypothesis =>
      obtain ⟨next, steps, later⟩ := Option.bind_eq_some_iff.mp runs
      refine .onward ⟨next, steps⟩ ?_
      intro other otherSteps
      obtain rfl := Option.some.inj (steps.symm.trans otherSteps)
      exact inductionHypothesis later

theorem exists_reaches_of_inevitable
    {goal : State Value → Prop}
    {state : State Value}
    (inevitable : Inevitable (StepMove numerics code) goal state) :
    ∃ final, Reaches numerics code state final ∧ goal final := by
  induction inevitable with
  | here reached =>
      exact ⟨_, .refl _, reached⟩
  | onward goesOn _ inductionHypothesis =>
      obtain ⟨next, steps⟩ := goesOn
      obtain ⟨final, reaches, reached⟩ := inductionHypothesis next steps
      exact ⟨final, (Reaches.of_step steps).trans reaches, reached⟩

theorem endless_of_ceaseless
    {state : State Value}
    (ceaseless : Ceaseless (StepMove numerics code) state) :
    Endless numerics code state := by
  intro count
  induction count generalizing state with
  | zero =>
      exact ⟨state, rfl⟩
  | succ count inductionHypothesis =>
      obtain ⟨next, steps⟩ := ceaseless state .refl
      have later : Ceaseless (StepMove numerics code) next :=
        fun other reached => ceaseless other (.head steps reached)
      obtain ⟨final, runs⟩ := inductionHypothesis later
      refine ⟨final, ?_⟩
      rw [run, show step numerics code state = some next from steps,
        Option.bind_some, runs]

end Steps

variable
    (numerics : Numerics Value)
    (code : List Line)
    (meaning : Meaning Value)
    (ready : (String → Value) → Core Value → Prop)

/-- The code between two positions does what a statement does. -/
structure Simulates
    (body : Stmt)
    (start finish : Nat) :
    Prop where
  ends :
    ∀ {before after core},
      Stmt.Runs meaning body before after → ready before core →
      ∃ final, Reaches numerics code ⟨start, core⟩ ⟨finish, final⟩ ∧
        ready after final
  endless :
    ∀ {before core},
      (∀ after, ¬ Stmt.Runs meaning body before after) → ready before core →
      Endless numerics code ⟨start, core⟩

variable
    {numerics code meaning ready}
    {start finish : Nat}

namespace Simulates

/-- Code that enacts a statement by steps of the machine simulates it. -/
theorem of_enacts
    {body : Stmt}
    (enacts : Enacts (StepMove numerics code) meaning ready body start finish) :
    Simulates numerics code meaning ready body start finish where
  ends := by
    intro before after core runs prepared
    obtain ⟨⟨_, final⟩, reaches, rfl, finalPrepared⟩ :=
      exists_reaches_of_inevitable (enacts.ends runs prepared)
    exact ⟨final, reaches, finalPrepared⟩
  endless := by
    intro before core never prepared
    exact endless_of_ceaseless (enacts.ceaseless never prepared)

section Halting

variable
    {body : Stmt}
    {before : String → Value}
    {core : Core Value}
    (simulates : Simulates numerics code meaning ready body start finish)
    (exitAt : code[finish]? = some exitLine)
    (prepared : ready before core)

include simulates exitAt prepared

/-- Where the statement ends the machine comes to the end of the program. -/
theorem halts
    {after : String → Value}
    (runs : Stmt.Runs meaning body before after) :
    ∃ final, Reaches numerics code ⟨start, core⟩ final ∧ AtExit code final ∧
      ready after final.core := by
  obtain ⟨final, reaches, finalPrepared⟩ := simulates.ends runs prepared
  exact ⟨⟨finish, final⟩, reaches, exitAt, finalPrepared⟩

/--
The machine stops at the end of the program only, and only where the
statement ends.
-/
theorem of_stopped
    {final : State Value}
    (reaches : Reaches numerics code ⟨start, core⟩ final)
    (stopped : step numerics code final = none) :
    AtExit code final ∧
      ∃ after, Stmt.Runs meaning body before after ∧
      ready after final.core := by
  by_cases ends : ∃ after, Stmt.Runs meaning body before after
  · obtain ⟨after, runs⟩ := ends
    obtain ⟨last, reachesLast, atExit, lastPrepared⟩ :=
      simulates.halts exitAt prepared runs
    obtain rfl :=
      eq_of_stopped reaches stopped reachesLast (step_of_atExit atExit)
    exact ⟨atExit, after, runs, lastPrepared⟩
  · obtain ⟨count, ran⟩ := reaches
    obtain ⟨beyond, runsOn⟩ :=
      simulates.endless (not_exists.mp ends) prepared (count + 1)
    rw [run_add, ran, Option.bind_some, run, stopped,
      Option.bind_none] at runsOn
    cases runsOn

end Halting

end Simulates

end Coprocessor.Machine
