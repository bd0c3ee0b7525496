import Coprocessor.Command.Run

namespace Coprocessor

open Command

/-!
# Command line

Carries out on the real file system what a run of the command plans.
-/

/-- The fault that an error number of the operating system stands for. -/
def numberedFault
    (code : UInt32)
    (description : String) :
    DiskFault :=
  if code = 2 then
    .notFound
  else if code = 20 then
    .notDirectory
  else if code = 21 then
    .isDirectory
  else
    .other description code.toNat

/-- The fault behind an error of the operating system. -/
def diskFault : IO.Error → DiskFault
  | .noFileOrDirectory _ code description
  | .inappropriateType _ code description
  | .permissionDenied _ code description | .resourceExhausted _ code description
  | .alreadyExists _ code description | .noSuchThing _ code description
  | .invalidArgument _ code description | .interrupted _ code description
  | .otherError code description | .hardwareFault code description
  | .unsupportedOperation code description | .resourceBusy code description
  | .resourceVanished code description | .illegalOperation code description
  | .protocolError code description | .timeExpired code description
  | .unsatisfiedConstraints code description => numberedFault code description
  | .unexpectedEof => .other "unexpected end of file" 0
  | .userError description => .other description 0

/-- Attempt something on the file system. -/
def attempt {α : Type} (action : IO α) : IO (Except DiskFault α) := do
  try
    return .ok (← action)
  catch error =>
    return .error (diskFault error)

/-- Report a fault. -/
def giveUp (fault : RunFault) : IO UInt32 := do
  IO.eprint fault.report
  return 1

/-- Carry out planned actions in order, up to the first that fails. -/
def carryOut : List Action → IO UInt32
  | [] => return 0
  | .print text :: rest => do
      IO.print text
      carryOut rest
  | .write purpose path text :: rest => do
      match ← attempt (IO.FS.writeBinFile path text.toUTF8) with
      | .ok _ => carryOut rest
      | .error cause => giveUp (.writing purpose path cause)

/-- Read the bytes of a file. -/
def readBytes (path : String) : IO ByteArray := do
  let handle ← IO.FS.Handle.mk path .read
  handle.readBinToEnd

/-- Read the text in a file. -/
def readInput (path : String) : IO (Except DiskFault String) := do
  match ← attempt (readBytes path) with
  | .ok contents =>
      match String.fromUTF8? contents with
      | some text => return .ok text
      | none => return .error .notText
  | .error cause => return .error cause

end Coprocessor

open Coprocessor Command in
/-- Run the command with its arguments. -/
def main (arguments : List String) : IO UInt32 := do
  match Settings.read arguments with
  | .error cause => giveUp (.arguments cause)
  | .ok settings =>
      match ← readInput settings.input with
      | .error cause => giveUp (.reading settings.input cause)
      | .ok source =>
          match plan settings source with
          | .error fault => giveUp fault
          | .ok planned => carryOut planned
