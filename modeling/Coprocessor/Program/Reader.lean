import Coprocessor.Program.Basic

namespace Coprocessor.Program

/-!
# Reading programs

The text of a program is an S-expression `(program (decls ...) tree)`, in which
both the declarations and the tree may be left out. A declaration is
`(name type)` or `(name type value)`. A tree is an atom, which is a leaf, or a
list of a tag and at most two subtrees. The first fault in reading order is
reported; a node is checked before its children.
-/

/-- The content of an atom; a list is refused. -/
def atomContent : SExpr → Except Fault String
  | .atom value => .ok value.content
  | .list items => .error (.malformed (.notAtom (.list items)))

/-- The tag that a word in a program stands for. -/
def tagOfWord : String → String
  | "seq" => ";"
  | "body" => "cuerpo"
  | word => word

/-- Read the name and the type of a declaration. -/
def readTyped (name type : SExpr) : Except Fault Symbol := do
  let name ← atomContent name
  let word ← atomContent type
  match SymbolType.ofWord word with
  | .ok type => .ok ((Symbol.ofName name).withType type)
  | .error word => .error (.unknownType name word)

/-- Read one declaration. -/
def readDeclaration : SExpr → Except Fault Symbol
  | .list [name, type] => readTyped name type
  | .list [name, type, value] => do
      let symbol ← readTyped name type
      let content ← atomContent value
      return symbol.withValue content
  | .list items => .error (.malformed (.declarationLength (.list items)))
  | .atom value => .error (.malformed (.declarationNotList (.atom value)))

/-- Read declarations from left to right into a table. -/
def readDeclarations
    (table : Symbol.Table) :
    List SExpr → Except Fault Symbol.Table
  | [] => .ok table
  | item :: rest => do
      let symbol ← readDeclaration item
      readDeclarations (table.insert symbol) rest

/-- Read a tree of tags. -/
def readTree : SExpr → Except Fault (Tree String)
  | .atom value => .ok (.leaf (tagOfWord value.content))
  | .list [] => .error (.malformed .emptyList)
  | .list [head] => do
      let word ← atomContent head
      return .leaf (tagOfWord word)
  | .list [head, child] => do
      let word ← atomContent head
      let left ← readTree child
      return .node (tagOfWord word) left .absent
  | .list [head, first, second] => do
      let word ← atomContent head
      let left ← readTree first
      let right ← readTree second
      return .node (tagOfWord word) left right
  | .list (head :: children) => do
      let word ← atomContent head
      .error (.tooManyChildren (tagOfWord word) children.length)

/-- Read what follows the declarations: at most one tree. -/
def readTrees : List SExpr → Except Fault (Tree String)
  | [] => .ok .absent
  | [item] => readTree item
  | _ => .error (.malformed .severalTrees)

/-- Divide the items of a program into declarations and the rest. -/
def splitDeclarations : List SExpr → List SExpr × List SExpr
  | .list (.atom (.text "decls") :: declarations) :: rest =>
      (declarations, rest)
  | items => ([], items)

/-- Read a program from an S-expression. -/
def ofSExpr : SExpr → Except Fault Program
  | .list (.atom (.text "program") :: items) => do
      let (declarations, rest) := splitDeclarations items
      let symbols ← readDeclarations .empty declarations
      let tree ← readTrees rest
      let (store, root) := Store.empty.addTree tree
      return ⟨store, symbols, root⟩
  | _ => .error (.malformed .notProgram)

/-- Read a program from its text. -/
def read (source : String) : Except Fault Program :=
  match SExpr.readChars source.toList with
  | .ok expression => ofSExpr expression
  | .error cause => .error (.unreadable source.toList cause)

end Coprocessor.Program
