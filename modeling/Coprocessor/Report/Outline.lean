import Coprocessor.Tree.Store

namespace Coprocessor.Report

/-!
# Outline of a tree

The tree lies on its side: the right subtree above its root and the left subtree
below, each level indented by four spaces.
-/

/-- A node and how far below the root it lies. -/
structure OutlineRow where
  depth : Nat
  node : Node
  deriving Repr, DecidableEq

/-- The rows of a tree whose root lies at a depth. -/
def outlineRows
    (depth : Nat) :
    Tree Node → List OutlineRow
  | .absent => []
  | .node label left right =>
      outlineRows (depth + 1) right ++
        ⟨depth, label⟩ :: outlineRows (depth + 1) left

/-- A tag with the number of its node. -/
def nodeTitle (node : Node) : String :=
  node.tag ++ " (" ++ toString node.id ++ ")"

/-- The text of a row. -/
def OutlineRow.render (row : OutlineRow) : String :=
  String.ofList (List.replicate (4 * row.depth) ' ') ++
    nodeTitle row.node ++ "\n"

/-- The outline of a tree. -/
def outline (tree : Tree Node) : String :=
  match tree with
  | .absent => "(empty tree)\n"
  | present => String.join ((outlineRows 0 present).map OutlineRow.render)

end Coprocessor.Report
