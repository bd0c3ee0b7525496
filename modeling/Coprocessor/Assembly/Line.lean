import Coprocessor.Assembly.Instr
import Coprocessor.Text.Column

namespace Coprocessor.Assembly

/-!
# Lines of a listing

A listing is a sequence of lines. Declarations reserve a cell, instructions are
indented by a tab and may set their mnemonic in a column, and every line of the
text ends in a line feed.
-/

/-- What a cell holds at first, and how much room it takes. -/
inductive Storage where
  | integer
  | real (initial : String)
  | text
  | controlWord
  deriving Repr, DecidableEq

/-- The directive that reserves storage. -/
def Storage.directive : Storage → String
  | .integer => "DD 0"
  | .real initial => "DD " ++ initial
  | .text => "DB 256 DUP (?)"
  | .controlWord => "DW 0"

/-- A cell with its storage. -/
structure Declaration where
  cell : Cell
  storage : Storage
  deriving Repr, DecidableEq

namespace Declaration

/-- The width of the column in which the name of a cell is set. -/
def column (declaration : Declaration) : Nat :=
  match declaration.cell with
  | .scratch _ => 5
  | _ => 0

/-- The text of a declaration. -/
def render (declaration : Declaration) : String :=
  Text.padRight declaration.column declaration.cell.name ++ " " ++
    declaration.storage.directive

end Declaration

/-- A line of a listing. -/
inductive Line where
  | blank
  | comment (text : String)
  | remark (text : String)
  | directive (text : String)
  | declare (declaration : Declaration)
  | label (name : Label)
  | instr (code : Instr) (column : Nat)
  deriving Repr, DecidableEq

namespace Line

/--
The text of a line without its line feed. A remark is a comment that is
indented like code.
-/
def render : Line → String
  | .blank => ""
  | .comment text => "; " ++ text
  | .remark text => "\t; " ++ text
  | .directive text => text
  | .declare declaration => declaration.render
  | .label target => target.name ++ ":"
  | .instr code column =>
      match code.operands? with
      | none => "\t" ++ Text.padRight column code.mnemonic
      | some operands =>
          "\t" ++ Text.padRight column code.mnemonic ++ " " ++ operands

/-- An instruction whose mnemonic is set without a column. -/
def code (instruction : Instr) : Line :=
  .instr instruction 0

/-- The instruction of a line, if it is one. -/
def instr? : Line → Option Instr
  | .instr code _ => some code
  | _ => none

end Line

/-- The lines of the data section and those of the code section. -/
structure Listing where
  data : List Line
  code : List Line
  deriving Repr, DecidableEq

namespace Listing

/-- All lines, the data section first. -/
def lines (listing : Listing) : List Line :=
  listing.data ++ listing.code

/-- The text of a listing. -/
def render (listing : Listing) : String :=
  String.join (listing.lines.map fun line => line.render ++ "\n")

end Listing

end Coprocessor.Assembly
