import Coprocessor.Report.Outline

namespace Coprocessor.Report

/-!
# Graph of a tree

The tree as a directed graph in the DOT language. Each node comes before its
children, and the edge to a child directly before that child. Characters that
have a meaning in the label of a record are marked by a backslash.
-/

/-- A line of the graph: a node, or the edge from a node to a child. -/
inductive GraphItem where
  | node (label : Node)
  | edge (parent child : Nat)
  deriving Repr, DecidableEq

/-- The edge to the root of a child, if there is one. -/
def childEdge
    (parent : Nat)
    (child : Tree Node) :
    List GraphItem :=
  match child with
  | .absent => []
  | .node label _ _ => [.edge parent label.id]

/-- The lines of a tree, the root first and left before right. -/
def graphItems : Tree Node → List GraphItem
  | .absent => []
  | .node label left right =>
      .node label ::
        (childEdge label.id left ++ graphItems left ++
          (childEdge label.id right ++ graphItems right))

/-- Whether a character has a meaning in the label of a record. -/
def isMarked (character : Char) : Bool :=
  ['"', '<', '>', '\x7b', '\x7d', '|'].contains character

/-- A label with a backslash before each character that has a meaning there. -/
def markLabel (label : List Char) : List Char :=
  label.flatMap fun character =>
    if isMarked character then ['\\', character] else [character]

/-- The text of a line. -/
def GraphItem.render : GraphItem → String
  | .node label =>
      "    n" ++ toString label.id ++ " [label=\"" ++
        String.ofList (markLabel (nodeTitle label).toList) ++ "\"];\n"
  | .edge parent child =>
      "    n" ++ toString parent ++ " -> n" ++ toString child ++ ";\n"

/-- The graph of a tree. -/
def graph (tree : Tree Node) : String :=
  "digraph AST \x7b\n    node [shape=record];\n" ++
    String.join ((graphItems tree).map GraphItem.render) ++ "\x7d\n"

end Coprocessor.Report
