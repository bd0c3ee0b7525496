namespace Coprocessor

/-!
# Trees

Programs are binary trees in which either child of a node may be absent. The
labels are tags where only the shape matters, and numbered nodes where the
numbering is shown.
-/

/-- A binary tree, possibly absent altogether. -/
inductive Tree (Label : Type) where
  | absent
  | node (label : Label) (left right : Tree Label)
  deriving Repr, DecidableEq

namespace Tree

/-- A node without children. -/
def leaf {Label : Type} (label : Label) : Tree Label :=
  .node label .absent .absent

/-- The label of the root, if there is a root. -/
def label? {Label : Type} : Tree Label → Option Label
  | .absent => none
  | .node label _ _ => some label

/-- The subtree to the left of the root. -/
def left {Label : Type} : Tree Label → Tree Label
  | .absent => .absent
  | .node _ left _ => left

/-- The subtree to the right of the root. -/
def right {Label : Type} : Tree Label → Tree Label
  | .absent => .absent
  | .node _ _ right => right

/-- Whether there is no root. -/
def isAbsent {Label : Type} : Tree Label → Bool
  | .absent => true
  | .node _ _ _ => false

/-- The number of nodes. -/
def size {Label : Type} : Tree Label → Nat
  | .absent => 0
  | .node _ left right => left.size + right.size + 1

/-- Change every label and keep the shape. -/
def map
    {Label Image : Type}
    (change : Label → Image) :
    Tree Label → Tree Image
  | .absent => .absent
  | .node label left right =>
      .node (change label) (left.map change) (right.map change)

/-- A change of labels keeps the number of nodes. -/
@[simp] theorem size_map
    {Label Image : Type}
    (change : Label → Image)
    (tree : Tree Label) :
    (tree.map change).size = tree.size := by
  induction tree with
  | absent => rfl
  | node label left right leftSize rightSize =>
      simp only [map, size, leftSize, rightSize]

end Tree

end Coprocessor
