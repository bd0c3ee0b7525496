import Coprocessor.SExpr.Reader
import Coprocessor.Symbol.Table
import Coprocessor.Tree.Store

namespace Coprocessor

/-!
# Programs

A program is a table of declared symbols and a tree of statements, whose nodes
are numbered in a store. What can be wrong with the text of a program is listed
here, together with the wording of each complaint.
-/

/--
Numbered nodes, declared symbols and the number of the root, zero
without a tree.
-/
structure Program where
  store : Store
  symbols : Symbol.Table
  root : Nat
  deriving Repr, DecidableEq

namespace Program

/-- A program without nodes and symbols. -/
def empty : Program :=
  ⟨.empty, .empty, 0⟩

/-- The statement tree. -/
def tree (program : Program) : Tree Node :=
  program.store.tree program.root

/-- How an S-expression can fail to have the form of a program. -/
inductive FormFault where
  | notProgram
  | declarationNotList (found : SExpr)
  | declarationLength (found : SExpr)
  | severalTrees
  | emptyList
  | notAtom (found : SExpr)
  deriving Repr

/-- The wording of a fault of form. -/
def FormFault.message : FormFault → String
  | .notProgram => "expected `(program ...)`"
  | .declarationNotList found =>
      "declaration must be a list, got " ++ found.render
  | .declarationLength found =>
      "declaration must be `(name type [value])`, got " ++ found.render
  | .severalTrees =>
      "a program holds one statement tree; join statements with `seq`"
  | .emptyList => "empty list in statement tree"
  | .notAtom found => "expected an atom, got " ++ found.render

/-- Why a text is not a program. -/
inductive Fault where
  | unreadable (characters : List Char) (cause : SExpr.ReadFault)
  | malformed (cause : FormFault)
  | unknownType (name word : String)
  | tooManyChildren (tag : String) (count : Nat)
  deriving Repr

/-- The wording of a fault. -/
def Fault.message : Fault → String
  | .unreadable characters cause => "syntax error: " ++ cause.message characters
  | .malformed cause => "malformed program: " ++ cause.message
  | .unknownType name word =>
      "unknown data type `" ++ word ++ "` for `" ++ name ++ "`"
  | .tooManyChildren tag count =>
      "`" ++ tag ++ "` takes at most two children, got " ++ toString count

end Program

end Coprocessor
