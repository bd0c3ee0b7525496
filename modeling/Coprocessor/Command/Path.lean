namespace Coprocessor.Command

/-!
# Paths

A path is a text of segments between slashes. Empty segments and single dots
lead nowhere; two dots lead to the parent directory. The last segment that is
neither is the file name of the path, unless it leads to the parent.
-/

/-- The segments of a path, empty ones included. -/
def segments : List Char → List (List Char)
  | [] => [[]]
  | character :: rest =>
      match character, segments rest with
      | '/', others => [] :: others
      | _, [] => [[character]]
      | _, first :: others => (character :: first) :: others

/-- Segments followed by a slash each. -/
def joinSegments (parts : List (List Char)) : List Char :=
  parts.flatMap (· ++ ['/'])

/--
A file name, the segments in front of it and whether the path goes on behind it.
-/
structure FileName where
  before : List (List Char)
  name : List Char
  followed : Bool
  deriving Repr, DecidableEq

/--
Find the file name among segments in reverse order.

A single dot at the start of the path names the working directory, and two dots
name the parent, so neither is skipped and neither is a file name.
-/
def findFileName?
    (followed : Bool) :
    List (List Char) → Option FileName
  | [] => none
  | segment :: earlier =>
      if segment = [] then
        findFileName? true earlier
      else if segment = ['.'] then
        if earlier = [] then none else findFileName? true earlier
      else if segment = ['.', '.'] then
        none
      else
        some ⟨earlier.reverse, segment, followed⟩

/-- The file name of a path. -/
def fileName? (path : List Char) : Option FileName :=
  findFileName? false (segments path).reverse

/--
A file name without its extension; a dot in first position does not
start an extension.
-/
def stem (name : List Char) : List Char :=
  let beforeExtension := (name.reverse.dropWhile (· != '.')).drop 1
  if beforeExtension = [] then name else beforeExtension.reverse

/--
A path with its extension replaced, or with one added.

Without a file name there is nothing to replace. A file name that starts
with two dots and ends the path loses its extension first, which leaves the
name of the parent directory, and this takes no extension. What follows the
file name is dropped.
-/
def replaceExtension
    (path : String)
    (extension : String) :
    String :=
  match fileName? path.toList with
  | none => path
  | some found =>
      let front := joinSegments found.before
      if stem found.name = ['.'] ∧ found.followed = false then
        String.ofList (front ++ ['.', '.'])
      else
        String.ofList (front ++ stem found.name ++ '.' :: extension.toList)

end Coprocessor.Command
