import Coprocessor.Tree.Basic

namespace Coprocessor

/-!
# Numbered nodes

A store numbers nodes from one in the order in which they are added. A new node
may take any node that is already there as a child, also one that has a parent,
and a number that names no node yet stands for an absent child. Since nodes are
only ever added, the store keeps with each number the whole tree below it.
-/

/-- A node of a store: its number and its tag. -/
structure Node where
  id : Nat
  tag : String
  deriving Repr, DecidableEq

/-- The number of the root of a tree, zero if it is absent. -/
def Tree.rootId : Tree Node → Nat
  | .absent => 0
  | .node label _ _ => label.id

/-- Trees of numbered nodes, the tree with root number one first. -/
structure Store where
  trees : Array (Tree Node)
  deriving Repr, DecidableEq

namespace Store

/-- A store without nodes. -/
def empty : Store :=
  ⟨#[]⟩

/-- The number of nodes, which is also the number of the latest one. -/
def size (store : Store) : Nat :=
  store.trees.size

/-- The tree below a number, absent if the number names no node. -/
def tree
    (store : Store)
    (id : Nat) :
    Tree Node :=
  if id = 0 then
    .absent
  else
    (store.trees[id - 1]?).getD .absent

/-- Add a node with the children that two numbers name. -/
def add
    (store : Store)
    (tag : String)
    (left right : Nat) :
    Store :=
  ⟨store.trees.push
    (.node ⟨store.size + 1, tag⟩ (store.tree left) (store.tree right))⟩

@[simp] theorem size_empty : empty.size = 0 :=
  rfl

/-- A new node takes the next number. -/
@[simp] theorem size_add
    (store : Store)
    (tag : String)
    (left right : Nat) :
    (store.add tag left right).size = store.size + 1 := by
  simp [add, size]

/-- Zero names no node. -/
@[simp] theorem tree_zero (store : Store) : store.tree 0 = .absent :=
  rfl

/-- A number beyond the latest names no node. -/
theorem tree_of_size_lt
    {store : Store}
    {id : Nat}
    (beyond : store.size < id) :
    store.tree id = .absent := by
  have positive : id ≠ 0 := by
    omega
  have outside : store.trees[id - 1]? = none := by
    apply Array.getElem?_eq_none
    simp only [size] at beyond
    omega
  simp [tree, positive, outside]

/-- The tree below an earlier number does not change when a node is added. -/
theorem tree_add_of_le
    {store : Store}
    {id : Nat}
    (tag : String)
    (left right : Nat)
    (earlier : id ≤ store.size) :
    (store.add tag left right).tree id = store.tree id := by
  by_cases zero : id = 0
  · simp [zero]
  · have inside : id - 1 < store.trees.size := by
      simp only [size] at earlier
      omega
    simp only [tree, zero, ↓reduceIte, add, Array.getElem?_push]
    simp [Nat.ne_of_lt inside]

/--
A new node is the root of its tree, above the trees that its children name.
-/
theorem tree_add_last
    (store : Store)
    (tag : String)
    (left right : Nat) :
    (store.add tag left right).tree (store.size + 1) =
      .node ⟨store.size + 1, tag⟩ (store.tree left) (store.tree right) := by
  simp [tree, add, size]

/--
Add the nodes of a tree, left before right before their parent, and give
the root's number.
-/
def addTree
    (store : Store) :
    Tree String → Store × Nat
  | .absent => (store, 0)
  | .node tag left right =>
      let afterLeft := store.addTree left
      let afterRight := afterLeft.1.addTree right
      let grown := afterRight.1.add tag afterLeft.2 afterRight.2
      (grown, grown.size)

end Store

end Coprocessor
