import Coprocessor.Command.Path

namespace Coprocessor.Command

/-!
# Disks

A disk holds files of bytes and directories. The working directory is its root,
so a path that starts with a slash or goes above the root stays on it. Every
segment of a path but the last has to name a directory.
-/

/-- Why a file cannot be read or written. -/
inductive DiskFault where
  | notFound
  | notDirectory
  | isDirectory
  | notText
  | other (description : String) (code : Nat)
  deriving Repr, DecidableEq

/-- The wording of a fault. -/
def DiskFault.message : DiskFault → String
  | .notFound => "No such file or directory (os error 2)"
  | .notDirectory => "Not a directory (os error 20)"
  | .isDirectory => "Is a directory (os error 21)"
  | .notText => "stream did not contain valid UTF-8"
  | .other description code =>
      description ++ " (os error " ++ toString code ++ ")"

/-- The place of a file or directory: the names on the way from the root. -/
abbrev Place := List String

/-- Files with their contents, and directories other than the root. -/
structure Disk where
  files : List (Place × ByteArray)
  directories : List Place

namespace Disk

/-- A disk without files and directories. -/
def empty : Disk :=
  ⟨[], []⟩

/-- The contents of the file at a place. -/
def file?
    (disk : Disk)
    (place : Place) :
    Option ByteArray :=
  (disk.files.find? fun entry => entry.1 == place).map Prod.snd

/-- Whether there is a directory at a place. -/
def hasDirectory
    (disk : Disk)
    (place : Place) :
    Bool :=
  place.isEmpty || disk.directories.contains place

/-- Put a file at a place, instead of one that is there. -/
def setFile
    (disk : Disk)
    (place : Place)
    (contents : ByteArray) :
    Disk :=
  { disk with
    files :=
      (place, contents) :: disk.files.filter fun entry => entry.1 != place }

/-- A file that has been set holds its new contents. -/
theorem file?_setFile_self
    (disk : Disk)
    (place : Place)
    (contents : ByteArray) :
    (disk.setFile place contents).file? place = some contents := by
  simp [file?, setFile]

/-- Setting a file does not change the files at other places. -/
theorem file?_setFile_of_ne
    {disk : Disk}
    {place other : Place}
    (contents : ByteArray)
    (different : other ≠ place) :
    (disk.setFile place contents).file? other = disk.file? other := by
  have passed : (place == other) = false := by
    simp [Ne.symm different]
  have kept :
      (fun entry : Place × ByteArray =>
        decide ((entry.1 != place) = true ∧ (entry.1 == other) = true)) =
      fun entry => entry.1 == other := by
    funext entry
    by_cases found : entry.1 = other
    · simp [found, different]
    · simp [found]
  simp only [file?, setFile, List.find?_cons, passed, List.find?_filter, kept]

/-- Make a directory at a place, and those on the way to it. -/
def addDirectory
    (disk : Disk)
    (place : Place) :
    Disk :=
  { disk with
    directories := disk.directories ++
      ((List.range place.length).map fun above => place.take (above + 1)) }

/--
The parts of a path that lead somewhere or stay where they are,
without empty segments.
-/
def steps (path : String) : List String :=
  ((segments path.toList).filter (· != [])).map String.ofList

/-- Whether a path ends in a slash. -/
def endsInSlash (path : String) : Bool :=
  path.toList.getLast? == some '/'

/-- Follow steps through directories. -/
def walk
    (disk : Disk)
    (place : Place) :
    List String → Except DiskFault Place
  | [] => .ok place
  | "." :: rest => disk.walk place rest
  | ".." :: rest => disk.walk place.dropLast rest
  | name :: rest =>
      if disk.hasDirectory (place ++ [name]) then
        disk.walk (place ++ [name]) rest
      else if (disk.file? (place ++ [name])).isSome then
        .error .notDirectory
      else
        .error .notFound

/--
The place that a path names, if that place is not bound to be a directory.

The empty path names nothing; a path whose last step stays in or leaves a
directory names a directory.
-/
def resolve
    (disk : Disk)
    (path : String) :
    Except DiskFault Place := do
  if path.isEmpty then
    .error .notFound
  else
    match (steps path).getLast? with
    | none => .error .isDirectory
    | some last =>
        let parent ← disk.walk [] (steps path).dropLast
        if last = "." ∨ last = ".." then
          .error .isDirectory
        else
          return parent ++ [last]

/--
Read the file that a path names. A slash behind the name asks for a directory.
-/
def read
    (disk : Disk)
    (path : String) :
    Except DiskFault ByteArray := do
  let place ← disk.resolve path
  match disk.file? place with
  | some contents =>
      if endsInSlash path then .error .notDirectory else .ok contents
  | none =>
      if disk.hasDirectory place then .error .isDirectory else .error .notFound

/--
Write the file that a path names. A slash behind the name asks for a directory.
-/
def write
    (disk : Disk)
    (path : String)
    (contents : ByteArray) :
    Except DiskFault Disk := do
  let place ← disk.resolve path
  if endsInSlash path || disk.hasDirectory place then
    .error .isDirectory
  else
    .ok (disk.setFile place contents)

/-- Read the text in the file that a path names. -/
def readText
    (disk : Disk)
    (path : String) :
    Except DiskFault String := do
  let contents ← disk.read path
  match String.fromUTF8? contents with
  | some text => .ok text
  | none => .error .notText

end Disk

end Coprocessor.Command
