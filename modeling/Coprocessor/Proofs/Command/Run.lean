import Coprocessor.Command.Run
import Coprocessor.Proofs.Command.Disk

namespace Coprocessor.Command

open Disk (Request)

/-!
# What a run changes

A run that does not get as far as a program changes nothing and prints nothing.
Any other run carries out the writes that its settings ask for, in their order
and up to the first that fails. Their texts come from the program that was read
at the start, so it does not matter whether a write replaces the input or what
an earlier write has left.
-/

/-- A run that has no program to work on. -/
inductive Barred
    (arguments : List String)
    (disk : Disk) :
    Prop where
  | arguments
      {fault : ArgumentFault} :
      Settings.read arguments = .error fault →
      Barred arguments disk
  | input
      {settings : Settings}
      {fault : DiskFault} :
      Settings.read arguments = .ok settings →
      disk.readText settings.input = .error fault →
      Barred arguments disk
  | program
      {settings : Settings}
      {source : String}
      {fault : Program.Fault} :
      Settings.read arguments = .ok settings →
      disk.readText settings.input = .ok source →
      Program.read source = .error fault →
      Barred arguments disk

/-- The writes that settings ask for: the graph, the sheet and the assembly. -/
def requested
    (settings : Settings)
    (program : Program) :
    List (Purpose × Request) :=
  (settings.graph.map fun path =>
    (.report, ⟨path, Report.graph program.tree⟩)).toList ++
    (settings.sheet.map fun path =>
      (.report, ⟨path, Report.sheet program.symbols⟩)).toList ++
    [(.assembly,
      ⟨settings.output,
        Compile.assembly settings.options program.symbols program.tree⟩)]

/--
How a run ends with requests left: well if there are none, else at
the first of them.
-/
structure Ends
    (left : List (Purpose × Request))
    (outcome : Outcome) :
    Prop where
  succeeds :
    outcome.exitCode = 0 ↔ left = []
  silent :
    left = [] → outcome.complaint = ""
  fails :
    ∀ {purpose : Purpose} {request : Request}
      {later : List (Purpose × Request)},
      left = (purpose, request) :: later →
        ∃ fault,
          outcome.disk.write request.path request.text.toUTF8 = .error fault ∧
          outcome.exitCode = 1 ∧
          outcome.complaint =
            (RunFault.writing purpose request.path fault).report

/--
All that a run does with a program: some requests are carried out, and
the others are left.
-/
structure Accounted
    (settings : Settings)
    (program : Program)
    (disk : Disk)
    (done left : List (Purpose × Request))
    (outcome : Outcome) :
    Prop where
  requests :
    requested settings program = done ++ left
  carried :
    disk.Carries (done.map Prod.snd) outcome.disk
  changed :
    disk.Changed (done.map Prod.snd) outcome.disk
  ends :
    Ends left outcome
  printed :
    outcome.printed =
      (if settings.outline then Report.outline program.tree else "") ++
        if outcome.exitCode = 0 then
          "Assembly generated: " ++ settings.output ++ "\n"
        else
          ""

/-- The write that a request asks for. -/
def writeAction (request : Purpose × Request) : Action :=
  .write request.1 request.2.path request.2.text

/--
Writes are carried out up to the first that fails, and a last text is
printed if none does.
-/
theorem perform_writes
    (requests : List (Purpose × Request))
    (text printed : String)
    (disk : Disk) :
    let outcome :=
      perform disk printed (requests.map writeAction ++ [.print text])
    ∃ done left,
      requests = done ++ left ∧ disk.Carries (done.map Prod.snd) outcome.disk ∧
      Ends left outcome ∧
      outcome.printed =
        printed ++ if outcome.exitCode = 0 then text else "" := by
  induction requests generalizing disk with
  | nil =>
      have ends : Ends [] (perform disk printed [.print text]) :=
        ⟨by simp [perform], by simp [perform], by simp⟩
      exact ⟨[], [], rfl, .nil disk, ends, by simp [perform]⟩
  | cons request rest inductionHypothesis =>
      simp only [List.map_cons, List.cons_append, writeAction, perform]
      cases writes : disk.write request.2.path request.2.text.toUTF8 with
      | ok next =>
          obtain ⟨done, left, rfl, carries, ends, prints⟩ :=
            inductionHypothesis next
          exact ⟨request :: done, left, rfl, .cons writes carries, ends, prints⟩
      | error fault =>
          refine ⟨[], request :: rest, rfl, .nil disk, ⟨?_, ?_, ?_⟩, ?_⟩
          · simp [Outcome.failure]
          · simp
          · intro purpose failing later shape
            cases shape
            exact ⟨fault, writes, rfl, rfl⟩
          · simp [Outcome.failure]

/--
What is done with a program: the outline if it is asked for, the writes
and the last line.
-/
theorem actions_eq
    (settings : Settings)
    (program : Program) :
    actions settings program =
      (if settings.outline then
        [.print (Report.outline program.tree)]
      else
        []) ++
        ((requested settings program).map writeAction ++
          [.print ("Assembly generated: " ++ settings.output ++ "\n")]) := by
  cases graph : settings.graph <;> cases sheet : settings.sheet <;>
    simp [actions, requested, writeAction, graph, sheet]

/-- The outline is printed in front of everything else. -/
theorem perform_actions
    (settings : Settings)
    (program : Program)
    (disk : Disk) :
    perform disk "" (actions settings program) =
      perform disk
        (if settings.outline then Report.outline program.tree else "")
        ((requested settings program).map writeAction ++
          [.print ("Assembly generated: " ++ settings.output ++ "\n")]) := by
  rw [actions_eq]
  cases settings.outline with
  | true =>
      simp [perform]
  | false =>
      rfl

theorem accounted_perform
    (settings : Settings)
    (program : Program)
    (disk : Disk) :
    ∃ done left,
      Accounted settings program disk done left
        (perform disk "" (actions settings program)) := by
  rw [perform_actions]
  obtain ⟨done, left, shape, carries, ends, prints⟩ :=
    perform_writes (requested settings program)
      ("Assembly generated: " ++ settings.output ++ "\n")
      (if settings.outline then Report.outline program.tree else "") disk
  exact ⟨done, left, shape, carries, carries.changed, ends, prints⟩

/--
Every run is accounted for. A run that is barred leaves the disk as it is,
prints nothing and fails. Any other run has a program, read from its input
before anything is written, and carries out the requested writes in their order
up to the first that fails: no other place changes, each place keeps the last
text written to it, the exit code tells whether a write has failed, and besides
the outline only the last line is printed, if no write has failed.
-/
theorem run_accounted
    (arguments : List String)
    (disk : Disk) :
    (Barred arguments disk →
      (run arguments disk).disk = disk ∧ (run arguments disk).printed = "" ∧
        (run arguments disk).exitCode = 1) ∧
    (¬ Barred arguments disk →
      ∃ settings source program, Settings.read arguments = .ok settings ∧
        disk.readText settings.input = .ok source ∧
        Program.read source = .ok program ∧
        ∃ done left,
          Accounted settings program disk done left (run arguments disk)) := by
  constructor
  · intro barred
    cases barred with
    | arguments rejected =>
        simp [run, rejected, Outcome.failure]
    | input accepted unreadable =>
        simp [run, accepted, unreadable, Outcome.failure]
    | program accepted readable misread =>
        simp [run, accepted, readable, plan, misread, Outcome.failure]
  · intro starts
    cases accepted : Settings.read arguments with
    | error fault =>
        exact absurd (.arguments accepted) starts
    | ok settings =>
        cases readable : disk.readText settings.input with
        | error fault =>
            exact absurd (.input accepted readable) starts
        | ok source =>
            cases loaded : Program.read source with
            | error fault =>
                exact absurd (.program accepted readable loaded) starts
            | ok program =>
                refine ⟨settings, source, program, rfl, readable, loaded, ?_⟩
                simp only [run, accepted, readable, plan, loaded]
                exact accounted_perform settings program disk

/--
A run whose outputs all replace its input; the last of them is the
one that is kept.
-/
theorem run_accounted_overwriting :
    let disk : Disk := ⟨[(["p"], "(program x)".toUTF8)], []⟩
    let arguments := ["p", "./p", "--symbols", "p"]
    ¬ Barred arguments disk ∧ (run arguments disk).exitCode = 0 ∧
      ∃ program, Program.read "(program x)" = .ok program ∧
        (run arguments disk).disk.file? ["p"] =
          some (Compile.assembly {} program.symbols program.tree).toUTF8 := by
  intro disk arguments
  have accepted :
      Settings.read arguments =
        .ok ⟨"p", "./p", false, none, some "p", false⟩ :=
    rfl
  have readable : disk.readText "p" = .ok "(program x)" :=
    rfl
  obtain ⟨program, loaded⟩ :
      ∃ program, Program.read "(program x)" = .ok program :=
    ⟨_, rfl⟩
  have starts : ¬ Barred arguments disk := by
    intro barred
    cases barred with
    | arguments rejected =>
        cases accepted.symm.trans rejected
    | input given unreadable =>
        cases Except.ok.inj (accepted.symm.trans given)
        cases readable.symm.trans unreadable
    | program given text misread =>
        cases Except.ok.inj (accepted.symm.trans given)
        cases Except.ok.inj (readable.symm.trans text)
        cases loaded.symm.trans misread
  have succeeded : (run arguments disk).exitCode = 0 :=
    rfl
  obtain ⟨settings, source, other, given, text, sameProgram, done, left,
    accounted⟩ :=
    (run_accounted arguments disk).2 starts
  cases Except.ok.inj (accepted.symm.trans given)
  cases Except.ok.inj (readable.symm.trans text)
  cases Except.ok.inj (loaded.symm.trans sameProgram)
  cases accounted.ends.succeeds.mp succeeded
  have requests := accounted.requests
  rw [List.append_nil] at requests
  have shape :
      done.map Prod.snd =
        [⟨"p", Report.sheet program.symbols⟩] ++
          ⟨"./p", Compile.assembly {} program.symbols program.tree⟩ :: [] := by
    rw [← requests]
    rfl
  have named : disk.resolve "./p" = .ok ["p"] := by
    rfl
  exact ⟨starts, succeeded, program, loaded,
    accounted.changed.written shape named (by simp)⟩

end Coprocessor.Command
