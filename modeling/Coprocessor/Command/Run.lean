import Coprocessor.Command.Disk
import Coprocessor.Command.Settings
import Coprocessor.Compile.Listing
import Coprocessor.Program.Reader
import Coprocessor.Report.Graph
import Coprocessor.Report.Sheet

namespace Coprocessor.Command

/-!
# Running the command

A run reads the arguments, the input and the program in it. What it prints and
writes then is settled before anything is written: a list of actions, carried
out in order up to the first that fails.
-/

/--
What a file is written for; this shows in the complaint when it
cannot be written.
-/
inductive Purpose where
  | report
  | assembly
  deriving Repr, DecidableEq

/-- Something that a run does once the program has been read. -/
inductive Action where
  | print (text : String)
  | write (purpose : Purpose) (path text : String)
  deriving Repr, DecidableEq

/-- Why a run fails. -/
inductive RunFault where
  | arguments (cause : ArgumentFault)
  | reading (path : String) (cause : DiskFault)
  | loading (path : String) (cause : Program.Fault)
  | writing (purpose : Purpose) (path : String) (cause : DiskFault)
  deriving Repr

/-- The text on the error channel for a fault. -/
def RunFault.report : RunFault → String
  | .arguments cause => "Error: " ++ cause.message ++ "\n" ++ usage ++ "\n"
  | .reading path cause =>
      "Error: reading " ++ path ++ ": " ++ cause.message ++ "\n"
  | .loading path cause =>
      "Error: loading " ++ path ++ ": " ++ cause.message ++ "\n"
  | .writing .report path cause =>
      "Error: writing " ++ path ++ ": " ++ cause.message ++ "\n"
  | .writing .assembly path cause =>
      "Error: cannot write `" ++ path ++ "`: " ++ cause.message ++ ": " ++
        cause.message ++ "\n"

/-- What a run does with a program. -/
def actions
    (settings : Settings)
    (program : Program) :
    List Action :=
  (if settings.outline then [.print (Report.outline program.tree)] else []) ++
    (settings.graph.map fun path =>
      .write .report path (Report.graph program.tree)).toList ++
    (settings.sheet.map fun path =>
      .write .report path (Report.sheet program.symbols)).toList ++
    [.write .assembly settings.output
        (Compile.assembly settings.options program.symbols program.tree),
      .print ("Assembly generated: " ++ settings.output ++ "\n")]

/-- The exit code, both output channels and the disk after a run. -/
structure Outcome where
  exitCode : Nat
  printed : String
  complaint : String
  disk : Disk

/-- The outcome of a run that fails. -/
def Outcome.failure
    (disk : Disk)
    (printed : String)
    (fault : RunFault) :
    Outcome :=
  ⟨1, printed, fault.report, disk⟩

/-- Carry out actions in order, up to the first that fails. -/
def perform
    (disk : Disk)
    (printed : String) :
    List Action → Outcome
  | [] => ⟨0, printed, "", disk⟩
  | .print text :: rest => perform disk (printed ++ text) rest
  | .write purpose path text :: rest =>
      match disk.write path text.toUTF8 with
      | .ok written => perform written printed rest
      | .error cause => .failure disk printed (.writing purpose path cause)

/-- What a run does with the text in its input. -/
def plan
    (settings : Settings)
    (source : String) :
    Except RunFault (List Action) :=
  match Program.read source with
  | .ok program => .ok (actions settings program)
  | .error cause => .error (.loading settings.input cause)

/-- Run the command on a disk. -/
def run
    (arguments : List String)
    (disk : Disk) :
    Outcome :=
  match Settings.read arguments with
  | .error cause => .failure disk "" (.arguments cause)
  | .ok settings =>
      match disk.readText settings.input with
      | .error cause => .failure disk "" (.reading settings.input cause)
      | .ok source =>
          match plan settings source with
          | .error fault => .failure disk "" fault
          | .ok planned => perform disk "" planned

end Coprocessor.Command
