import Coprocessor.Compile.Stmt
import Coprocessor.Program.Basic

namespace Coprocessor.Compile

open Assembly

/-!
# Listings of programs

A listing declares the symbols of the program, some scratch cells, the cells for
the control word where it is changed, and what the statement tree needs. The
code of the tree stands between a fixed entry and a fixed exit.
-/

/-- The lines in front of the declared symbols. -/
def dataHeader : List Line :=
  [.comment "*************** DATA SECTION ***************",
    .directive ".MODEL LARGE",
    .directive ".386",
    .directive ".STACK 200h",
    .blank,
    .directive ".DATA",
    .blank]

/-- The storage of a symbol. -/
def symbolStorage (type : SymbolType) : Storage :=
  match type with
  | .integer => .integer
  | .string => .text
  | .float | .integerConstant | .floatConstant | .stringConstant
  | .identifier => .real "0.0"

/-- The declaration of a symbol. -/
def declareSymbol (symbol : Symbol) : Declaration :=
  ⟨.variable symbol.name, symbolStorage symbol.effectiveType⟩

/-- Scratch cells, which every listing declares. -/
def scratchDeclarations : List Declaration :=
  [⟨.scratch "c", .real "0.0"⟩,
    ⟨.scratch "sum", .real "0.0"⟩,
    ⟨.scratch "mult", .real "1.0"⟩,
    ⟨.scratch "aux", .real "0.0"⟩]

/-- The cells that a change of the control word needs. -/
def controlDeclarations : QuotientRounding → List Declaration
  | .floor => [⟨.savedControl, .controlWord⟩, ⟨.floorControl, .controlWord⟩]
  | .ambient => []

/-- The lines in front of the code of the statement tree. -/
def codeHeader : List Line :=
  [.comment "*************** CODE SECTION ***************",
    .directive ".CODE",
    .blank,
    .directive "mov AX,@DATA",
    .directive "mov DS,AX",
    .directive "mov ES,AX",
    .blank]

/-- The lines behind the code of the statement tree. -/
def codeFooter : List Line :=
  [.blank,
    .comment "End of program",
    .directive "mov ax,4c00h",
    .directive "int 21h",
    .directive "End"]

/-- The listing around what a statement adds to it. -/
def listingAround
    (options : Options)
    (symbols : Symbol.Table)
    (fragment : Fragment) :
    Listing :=
  { data := dataHeader ++
      symbols.symbols.map (fun symbol => .declare (declareSymbol symbol)) ++
      [.blank] ++
      (scratchDeclarations ++ controlDeclarations options.modulo ++
        fragment.data).map .declare
    code := codeHeader ++ fragment.code ++ codeFooter }

/-- The listing of a statement with a table of symbols. -/
def listing
    (options : Options)
    (symbols : Symbol.Table)
    (body : Stmt) :
    Listing :=
  listingAround options symbols (statement options body .start)

/--
The statement that a tree of numbered nodes stands for; the numbers
do not matter.
-/
def statementOf (tree : Tree Node) : Stmt :=
  .ofTree (tree.map Node.tag)

/-- The text of the listing of a tree of numbered nodes. -/
def assembly
    (options : Options)
    (symbols : Symbol.Table)
    (tree : Tree Node) :
    String :=
  (listing options symbols (statementOf tree)).render

end Coprocessor.Compile
