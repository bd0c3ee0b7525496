import Coprocessor.Command.Path
import Coprocessor.Compile.Options

namespace Coprocessor.Command

/-!
# Settings

What the arguments of the command ask for. Options may stand anywhere among the
file names; the last of several values of an option counts. A fault of an option
is reported before a fault in the number of file names.
-/

/-- What one run of the command shall do. -/
structure Settings where
  input : String
  output : String
  legacy : Bool
  graph : Option String
  sheet : Option String
  outline : Bool
  deriving Repr, DecidableEq

/-- The options of the compiler that the settings choose. -/
def Settings.options (settings : Settings) : Compile.Options :=
  if settings.legacy then .legacy else {}

/-- What can be wrong with the arguments. -/
inductive ArgumentFault where
  | noInput
  | noValue (option : String)
  | unknownOption (option : String)
  | extraArgument (argument : String)
  deriving Repr, DecidableEq

/-- The wording of a fault. -/
def ArgumentFault.message : ArgumentFault → String
  | .noInput => "no input file given"
  | .noValue option => "`" ++ option ++ "` expects a file name"
  | .unknownOption option => "unknown option `" ++ option ++ "`"
  | .extraArgument argument => "unexpected argument `" ++ argument ++ "`"

/-- The line that explains the arguments. -/
def usage : String :=
  "Usage: stackgen <program.sexp> [output.asm] [--reference] [--dot <file>] " ++
    "[--symbols <file>] [--tree]"

/-- File names and options as they have been given. -/
structure Arguments where
  fileNames : List String
  legacy : Bool
  graph : Option String
  sheet : Option String
  outline : Bool
  deriving Repr, DecidableEq

namespace Arguments

/-- No arguments. -/
def none : Arguments :=
  ⟨[], false, .none, .none, false⟩

/-- Whether an argument is an option. -/
def isOption (argument : String) : Bool :=
  argument.toList.take 2 == ['-', '-']

/--
Collect arguments from left to right, behind those that have been collected.
-/
def collect
    (given : Arguments) :
    List String → Except ArgumentFault Arguments
  | [] => .ok given
  | "--reference" :: rest => collect { given with legacy := true } rest
  | "--tree" :: rest => collect { given with outline := true } rest
  | ["--dot"] => .error (.noValue "--dot")
  | "--dot" :: path :: rest => collect { given with graph := some path } rest
  | ["--symbols"] => .error (.noValue "--symbols")
  | "--symbols" :: path :: rest =>
      collect { given with sheet := some path } rest
  | argument :: rest =>
      if isOption argument then
        .error (.unknownOption argument)
      else
        collect { given with fileNames := given.fileNames ++ [argument] } rest

/-- The input and the output that the file names stand for. -/
def inputAndOutput : List String → Except ArgumentFault (String × String)
  | [] => .error .noInput
  | [input] => .ok (input, replaceExtension input "asm")
  | [input, output] => .ok (input, output)
  | _ :: _ :: extra :: _ => .error (.extraArgument extra)

end Arguments

/-- Read the arguments of the command. -/
def Settings.read (arguments : List String) :
    Except ArgumentFault Settings := do
  let given ← Arguments.none.collect arguments
  let (input, output) ← Arguments.inputAndOutput given.fileNames
  return ⟨input, output, given.legacy, given.graph, given.sheet, given.outline⟩

end Coprocessor.Command
