import Coprocessor.Proofs.Tree.Calls

namespace Coprocessor

/-!
# Numbering of a tree

The nodes of a tree are numbered in post-order: those of the left subtree, those
of the right subtree, the root. Where each number falls can be told from the
sizes of subtrees alone. Adding a tree to a store gives every node the number
and the record that this says, and changes nothing that was there before.
-/

namespace Tree

/--
The number of the root of a tree that is added to a given number of nodes.
-/
def number?
    (before : Nat) :
    Tree String → Option Nat
  | .absent => none
  | .node tag left right => some (before + (node tag left right).size)

/--
The records of the nodes of a tree that is added to a given number of
nodes, in post-order.
-/
def records
    (before : Nat) :
    Tree String → List Record
  | .absent => []
  | .node tag left right =>
      left.records before ++ right.records (before + left.size) ++
        [{ id := before + left.size + right.size + 1
           tag := tag
           kind := .ofTag tag
           left := left.number? before
           right := right.number? (before + left.size) }]

/-- The records carry consecutive numbers. -/
theorem map_id_records
    (before : Nat)
    (tree : Tree String) :
    (tree.records before).map Record.id =
      List.range' (before + 1) tree.size := by
  induction tree generalizing before with
  | absent =>
      rfl
  | node tag left right leftNumbers rightNumbers =>
      have last : before + left.size + right.size + 1 =
          before + 1 + 1 * (left.size + right.size) := by
        omega
      rw [records, List.map_append, List.map_append, leftNumbers, rightNumbers,
        size, List.range'_concat, Nat.add_right_comm before left.size 1,
        List.range'_append_1, ← last]
      rfl

end Tree

namespace Store

/-- What the store tells about its nodes, in the order of their numbers. -/
def records (store : Store) : List (Option Record) :=
  store.trees.toList.map Tree.record?

theorem get?_succ
    (store : Store)
    (index : Nat) :
    store.get? (index + 1) = (store.records[index]?).join := by
  rw [get?, tree, if_neg (Nat.succ_ne_zero index), Nat.add_sub_cancel, records,
    List.getElem?_map, Array.getElem?_toList]
  cases store.trees[index]? <;> rfl

theorem records_add
    (store : Store)
    (tag : String)
    (left right : Nat) :
    (store.add tag left right).records =
      store.records ++
        [some
          { id := store.size + 1
            tag := tag
            kind := .ofTag tag
            left := (store.tree left).rootId?
            right := (store.tree right).rootId? }] := by
  simp [records, add, Tree.record?]

/-- Adding a tree adds as many nodes as it has. -/
@[simp] theorem size_addTree
    (store : Store)
    (tree : Tree String) :
    (store.addTree tree).1.size = store.size + tree.size := by
  induction tree generalizing store with
  | absent =>
      rfl
  | node tag left right leftSize rightSize =>
      rw [addTree, size_add, rightSize, leftSize, Tree.size]
      omega

/--
In a store of its own, the root of a tree has the number of nodes as its number.
-/
theorem root_addTree_empty (tree : Tree String) :
    (empty.addTree tree).2 = tree.size := by
  cases tree with
  | absent =>
      rfl
  | node tag left right =>
      exact (empty.size_addTree (.node tag left right)).trans (Nat.zero_add _)

theorem root_addTree_le
    (store : Store)
    (tree : Tree String) :
    (store.addTree tree).2 ≤ (store.addTree tree).1.size := by
  cases tree with
  | absent =>
      exact Nat.zero_le _
  | node tag left right =>
      exact Nat.le_refl _

/-- Adding a tree does not change the trees that are there. -/
theorem tree_addTree_of_le
    {store : Store}
    {id : Nat}
    (tree : Tree String)
    (earlier : id ≤ store.size) :
    (store.addTree tree).1.tree id = store.tree id := by
  induction tree generalizing store with
  | absent =>
      rfl
  | node tag left right leftKept rightKept =>
      have afterLeft : id ≤ (store.addTree left).1.size := by
        rw [size_addTree]
        exact Nat.le_add_right_of_le earlier
      have afterRight : id ≤ ((store.addTree left).1.addTree right).1.size := by
        rw [size_addTree]
        exact Nat.le_add_right_of_le afterLeft
      rw [addTree, tree_add_of_le _ _ _ afterRight, rightKept afterLeft,
        leftKept earlier]

/-- The right subtree, and then the root, leave the left subtree as it is. -/
theorem tree_addTree_node
    (store : Store)
    (tag : String)
    (left right : Tree String) :
    (store.addTree (.node tag left right)).1.tree
      (store.addTree (.node tag left right)).2 =
      .node ⟨store.size + (Tree.node tag left right).size, tag⟩
        ((store.addTree left).1.tree (store.addTree left).2)
        (((store.addTree left).1.addTree right).1.tree
          ((store.addTree left).1.addTree right).2) := by
  have last : ((store.addTree left).1.addTree right).1.size + 1 =
      store.size + (Tree.node tag left right).size := by
    rw [size_addTree, size_addTree, Tree.size]
    omega
  rw [addTree]
  simp only [size_add, tree_add_last]
  rw [tree_addTree_of_le right (root_addTree_le store left), last]

/-- The root of a tree that has been added carries its number. -/
theorem rootId?_addTree
    (store : Store)
    (tree : Tree String) :
    ((store.addTree tree).1.tree (store.addTree tree).2).rootId? =
      tree.number? store.size := by
  cases tree with
  | absent =>
      rfl
  | node tag left right =>
      rw [tree_addTree_node]
      rfl

/-- A tree that has been added is found below its root. -/
theorem map_tag_addTree
    (store : Store)
    (tree : Tree String) :
    ((store.addTree tree).1.tree (store.addTree tree).2).map Node.tag =
      tree := by
  induction tree generalizing store with
  | absent =>
      rfl
  | node tag left right leftFound rightFound =>
      rw [tree_addTree_node, Tree.map, leftFound, rightFound]

/-- Adding a tree adds the records of its nodes in post-order. -/
theorem records_addTree
    (store : Store)
    (tree : Tree String) :
    (store.addTree tree).1.records =
      store.records ++ (tree.records store.size).map some := by
  induction tree generalizing store with
  | absent =>
      exact (List.append_nil _).symm
  | node tag left right leftRecords rightRecords =>
      -- The root of the left subtree is looked up behind the right one, which
      -- did not change it.
      rw [addTree, records_add, rightRecords, leftRecords, rootId?_addTree,
        tree_addTree_of_le right (root_addTree_le store left), rootId?_addTree,
        Tree.records]
      simp only [size_addTree, List.map_append, List.map_cons, List.map_nil,
        List.append_assoc]

/--
Numbers name the nodes of a tree in post-order if nothing was there before.
-/
theorem get?_succ_addTree_empty
    (tree : Tree String)
    (index : Nat) :
    (empty.addTree tree).1.get? (index + 1) = (tree.records 0)[index]? := by
  have same : (empty.addTree tree).1.records = (tree.records 0).map some :=
    empty.records_addTree tree
  rw [get?_succ, same, List.getElem?_map]
  cases (tree.records 0)[index]? <;> rfl

end Store

end Coprocessor
