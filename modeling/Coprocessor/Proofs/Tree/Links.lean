import Coprocessor.Proofs.Tree.Numbering
import Mathlib.Data.List.Perm.Basic

namespace Coprocessor

open scoped List

/-!
# Links of a tree

Every node of a tree but the root hangs below one parent. In pre-order, a root
before its left and then its right subtree, the link to a node comes behind the
link to its parent, and the link to a left child before that to a right one. In
a tree whose nodes are numbered in post-order the links lead from larger numbers
to smaller ones, they are the pairs of a node and a child that the store tells
of, and each number but that of the root is at the end of one of them.
-/

/-- A node that is not the root, with the number of its parent. -/
structure Link where
  parent : Nat
  child : Node
  deriving Repr, DecidableEq

/-- The numbers of the parent and of the child. -/
def Link.ends (link : Link) : Nat × Nat :=
  (link.parent, link.child.id)

/-- Whether a number is that of a child of the recorded node. -/
def Record.IsAbove
    (record : Record)
    (lower : Nat) :
    Prop :=
  record.left = some lower ∨ record.right = some lower

namespace Tree

/-- The labels of a tree in pre-order. -/
def preorder {Label : Type} : Tree Label → List Label
  | .absent => []
  | .node label left right => label :: (left.preorder ++ right.preorder)

/-- The links to the nodes of a tree that hangs below a number, in pre-order. -/
def linksBelow
    (parent : Nat) :
    Tree Node → List Link
  | .absent => []
  | .node label left right =>
      ⟨parent, label⟩ :: (left.linksBelow label.id ++ right.linksBelow label.id)

/-- The links inside a tree, in pre-order. -/
def links : Tree Node → List Link
  | .absent => []
  | .node label left right =>
      left.linksBelow label.id ++ right.linksBelow label.id

/-- What the nodes of a tree tell about themselves, in pre-order. -/
def recordList : Tree Node → List Record
  | .absent => []
  | .node label left right =>
      ⟨label.id, label.tag, .ofTag label.tag, left.rootId?, right.rootId?⟩ ::
        (left.recordList ++ right.recordList)

/-- The nodes of a tree carry the numbers behind a given one, in post-order. -/
def NumberedFrom
    (before : Nat) :
    Tree Node → Prop
  | .absent => True
  | .node label left right =>
      label.id = before + (node label left right).size ∧
        left.NumberedFrom before ∧ right.NumberedFrom (before + left.size)

@[simp] theorem length_preorder
    {Label : Type}
    (tree : Tree Label) :
    tree.preorder.length = tree.size := by
  induction tree with
  | absent =>
      rfl
  | node label left right leftLength rightLength =>
      rw [preorder, List.length_cons, List.length_append, leftLength,
        rightLength, size]

/-- The links to the nodes of a tree lead to all of them. -/
@[simp] theorem map_child_linksBelow
    (parent : Nat)
    (tree : Tree Node) :
    (tree.linksBelow parent).map Link.child = tree.preorder := by
  induction tree generalizing parent with
  | absent =>
      rfl
  | node label left right leftLinks rightLinks =>
      rw [linksBelow, List.map_cons, List.map_append, leftLinks, rightLinks,
        preorder]

/-- The links inside a tree lead to all its nodes but the root. -/
theorem map_child_links (tree : Tree Node) :
    tree.links.map Link.child = tree.preorder.tail := by
  cases tree with
  | absent =>
      rfl
  | node label left right =>
      rw [links, List.map_append, map_child_linksBelow, map_child_linksBelow,
        preorder, List.tail_cons]

/--
The link to a parent comes before the link to a child, if the one above
the tree comes first.
-/
theorem parent_before
    (above : Link)
    {link : Link}
    {tree : Tree Node}
    (member : link ∈ tree.linksBelow above.child.id) :
    ∃ upper, upper.child.id = link.parent ∧
      [upper, link] <+ above :: tree.linksBelow above.child.id := by
  induction tree generalizing above with
  | absent =>
      cases member
  | node label left right leftHypothesis rightHypothesis =>
      rcases List.mem_cons.mp member with rfl | below
      · refine ⟨above, rfl, ?_⟩
        exact ((List.nil_sublist _).cons_cons _).cons_cons above
      · have inSubtrees : ∀ part : List Link,
            part <+ left.linksBelow label.id ++ right.linksBelow label.id →
            ⟨above.child.id, label⟩ :: part <+
              above :: (node label left right).linksBelow above.child.id :=
          fun part inside => (inside.cons_cons _).cons above
        rcases List.mem_append.mp below with inLeft | inRight
        · obtain ⟨upper, isParent, ordered⟩ :=
            leftHypothesis ⟨above.child.id, label⟩ inLeft
          exact ⟨upper, isParent,
            ordered.trans (inSubtrees _ (List.sublist_append_left _ _))⟩
        · obtain ⟨upper, isParent, ordered⟩ :=
            rightHypothesis ⟨above.child.id, label⟩ inRight
          exact ⟨upper, isParent,
            ordered.trans (inSubtrees _ (List.sublist_append_right _ _))⟩

theorem exists_mem_recordList_node
    {label : Node}
    {left right : Tree Node}
    {property : Record → Prop} :
    (∃ record ∈ (node label left right).recordList, property record) ↔
      property ⟨label.id, label.tag, .ofTag label.tag, left.rootId?,
        right.rootId?⟩ ∨
        (∃ record ∈ left.recordList, property record) ∨
          ∃ record ∈ right.recordList, property record := by
  simp only [recordList, List.exists_mem_cons_iff, List.mem_append,
    or_and_right, exists_or]

/--
The links to the nodes of a tree lead to its root, and from its nodes
to their children.
-/
theorem mem_ends_linksBelow
    {parent : Nat}
    {tree : Tree Node}
    {upper lower : Nat} :
    (upper, lower) ∈ (tree.linksBelow parent).map Link.ends ↔
      upper = parent ∧ tree.rootId? = some lower ∨
        ∃ record ∈ tree.recordList,
          record.id = upper ∧ record.IsAbove lower := by
  induction tree generalizing parent with
  | absent =>
      simp [linksBelow, rootId?, label?, recordList]
  | node label left right leftHypothesis rightHypothesis =>
      have first : (upper, lower) = Link.ends ⟨parent, label⟩ ↔
          upper = parent ∧ (node label left right).rootId? = some lower := by
        simp [Link.ends, rootId?, label?, eq_comm]
      rw [linksBelow, List.map_cons, List.map_append, List.mem_cons,
        List.mem_append, leftHypothesis, rightHypothesis,
        exists_mem_recordList_node, first]
      simp only [Record.IsAbove]
      grind

/-- The link to the root comes first. -/
theorem ends_linksBelow
    {parent lower : Nat}
    {tree : Tree Node}
    (root : tree.rootId? = some lower) :
    [(parent, lower)] <+ (tree.linksBelow parent).map Link.ends := by
  rw [List.singleton_sublist, mem_ends_linksBelow]
  exact .inl ⟨rfl, root⟩

/-- The link to a left child comes before the link to a right one. -/
theorem left_before_right
    {parent leftChild rightChild : Nat}
    {tree : Tree Node}
    {record : Record}
    (member : record ∈ tree.recordList)
    (isLeft : record.left = some leftChild)
    (isRight : record.right = some rightChild) :
    [(record.id, leftChild), (record.id, rightChild)] <+
      (tree.linksBelow parent).map Link.ends := by
  induction tree generalizing parent with
  | absent =>
      cases member
  | node label left right leftHypothesis rightHypothesis =>
      rw [linksBelow, List.map_cons, List.map_append]
      refine List.Sublist.cons _ ?_
      rcases List.mem_cons.mp member with rfl | below
      · exact (ends_linksBelow isLeft).append (ends_linksBelow isRight)
      · rcases List.mem_append.mp below with inLeft | inRight
        · exact (leftHypothesis inLeft).trans (List.sublist_append_left _ _)
        · exact (rightHypothesis inRight).trans (List.sublist_append_right _ _)

section Inside

variable {tree : Tree Node}

theorem links_sublist (parent : Nat) :
    tree.links <+ tree.linksBelow parent := by
  cases tree with
  | absent =>
      exact .slnil
  | node label left right =>
      exact List.sublist_cons_self _ _

/-- A link that does not start above the tree is inside it. -/
theorem sublist_ends_links
    {parent upper lower : Nat}
    {rest : List (Nat × Nat)}
    (different : upper ≠ parent)
    (inside :
      (upper, lower) :: rest <+ (tree.linksBelow parent).map Link.ends) :
    (upper, lower) :: rest <+ tree.links.map Link.ends := by
  cases tree with
  | absent =>
      cases inside
  | node label left right =>
      refine List.Sublist.of_cons_of_ne ?_ inside
      exact fun same => different (congrArg Prod.fst same)

/-- The links inside a tree lead from its nodes to their children. -/
theorem mem_ends_links
    {upper lower : Nat} :
    (upper, lower) ∈ tree.links.map Link.ends ↔
      ∃ record ∈ tree.recordList, record.id = upper ∧ record.IsAbove lower := by
  constructor
  · intro member
    have below := ((links_sublist (upper + 1)).map Link.ends).subset member
    rcases mem_ends_linksBelow.mp below with ⟨same, -⟩ | inside
    · omega
    · exact inside
  · intro inside
    have below : (upper, lower) ∈ (tree.linksBelow (upper + 1)).map Link.ends :=
      mem_ends_linksBelow.mpr (.inr inside)
    have single := sublist_ends_links (Nat.ne_of_lt (Nat.lt_succ_self upper))
      (List.singleton_sublist.mpr below)
    exact List.singleton_sublist.mp single

theorem left_before_right_links
    {leftChild rightChild : Nat}
    {record : Record}
    (member : record ∈ tree.recordList)
    (isLeft : record.left = some leftChild)
    (isRight : record.right = some rightChild) :
    [(record.id, leftChild), (record.id, rightChild)] <+
      tree.links.map Link.ends :=
  sublist_ends_links (Nat.ne_of_lt (Nat.lt_succ_self record.id))
    (left_before_right member isLeft isRight)

/--
Inside a tree the link to a parent comes before the link to a child, the
root first of all.
-/
theorem parent_before_links
    {link : Link}
    (above : Nat)
    (member : link ∈ tree.links) :
    ∃ upper, upper.child.id = link.parent ∧
      [upper, link] <+ tree.linksBelow above := by
  cases tree with
  | absent =>
      cases member
  | node label left right =>
      rcases List.mem_append.mp member with inLeft | inRight
      · obtain ⟨upper, isParent, ordered⟩ := parent_before ⟨above, label⟩ inLeft
        exact ⟨upper, isParent,
          ordered.trans ((List.sublist_append_left _ _).cons_cons _)⟩
      · obtain ⟨upper, isParent, ordered⟩ :=
          parent_before ⟨above, label⟩ inRight
        exact ⟨upper, isParent,
          ordered.trans ((List.sublist_append_right _ _).cons_cons _)⟩

end Inside

namespace NumberedFrom

variable
    {before : Nat}
    {tree : Tree Node}

/-- The root carries the last number. -/
theorem rootId?_eq (numbered : tree.NumberedFrom before) :
    tree.rootId? = (tree.map Node.tag).number? before := by
  cases tree with
  | absent =>
      rfl
  | node label left right =>
      rw [rootId?, label?, Option.map_some, numbered.1, map, number?]
      simp [size]

/--
The numbers of a tree in pre-order are the numbers behind the given
one, in some order.
-/
theorem perm_preorder (numbered : tree.NumberedFrom before) :
    (tree.preorder.map Node.id).Perm (List.range' (before + 1) tree.size) := by
  induction tree generalizing before with
  | absent =>
      exact .nil
  | node label left right leftHypothesis rightHypothesis =>
      obtain ⟨root, leftNumbered, rightNumbered⟩ := numbered
      have below :=
        (leftHypothesis leftNumbered).append (rightHypothesis rightNumbered)
      rw [Nat.add_right_comm before left.size 1, List.range'_append_1] at below
      have last : label.id = before + 1 + 1 * (left.size + right.size) := by
        rw [root, size]
        omega
      rw [preorder, List.map_cons, List.map_append, size,
        List.range'_concat, ← last]
      exact (below.cons label.id).trans (List.perm_append_singleton _ _).symm

/-- The numbers of all nodes but the root are all but the last. -/
theorem perm_tail_preorder (numbered : tree.NumberedFrom before) :
    (tree.preorder.tail.map Node.id).Perm
      ((List.range' (before + 1) tree.size).erase (before + tree.size)) := by
  have erased := numbered.perm_preorder.erase (before + tree.size)
  cases tree with
  | absent =>
      exact .nil
  | node label left right =>
      rw [preorder, List.map_cons, numbered.1, List.erase_cons_head] at erased
      exact erased

/-- Below a larger number, every link leads to a smaller one. -/
theorem child_lt
    {parent : Nat}
    {link : Link}
    (numbered : tree.NumberedFrom before)
    (larger : before + tree.size < parent)
    (member : link ∈ tree.linksBelow parent) :
    link.child.id < link.parent := by
  induction tree generalizing before parent with
  | absent =>
      cases member
  | node label left right leftHypothesis rightHypothesis =>
      obtain ⟨root, leftNumbered, rightNumbered⟩ := numbered
      rw [size] at root larger
      rcases List.mem_cons.mp member with rfl | below
      · exact root ▸ larger
      · rcases List.mem_append.mp below with inLeft | inRight
        · exact leftHypothesis leftNumbered (by omega) inLeft
        · exact rightHypothesis rightNumbered (by omega) inRight

/-- The nodes tell of themselves what the post-order of the tags says. -/
theorem mem_recordList_iff
    {record : Record}
    (numbered : tree.NumberedFrom before) :
    record ∈ tree.recordList ↔ record ∈ (tree.map Node.tag).records before := by
  induction tree generalizing before with
  | absent =>
      rfl
  | node label left right leftHypothesis rightHypothesis =>
      obtain ⟨root, leftNumbered, rightNumbered⟩ := numbered
      have sizes : before + left.size + right.size + 1 = label.id := by
        rw [root, size]
        omega
      rw [recordList, List.mem_cons, List.mem_append,
        leftHypothesis leftNumbered, rightHypothesis rightNumbered,
        leftNumbered.rootId?_eq, rightNumbered.rootId?_eq, map, records,
        List.mem_append, List.mem_append, List.mem_singleton, size_map,
        size_map, sizes]
      exact or_comm

end NumberedFrom

end Tree

namespace Store

/--
A tree that is added to a store is numbered behind the nodes that are there.
-/
theorem numberedFrom_addTree
    (store : Store)
    (tree : Tree String) :
    ((store.addTree tree).1.tree (store.addTree tree).2).NumberedFrom
      store.size := by
  induction tree generalizing store with
  | absent =>
      trivial
  | node tag left right leftNumbered rightNumbered =>
      have sameSize : ∀ (grown : Store) (part : Tree String),
          ((grown.addTree part).1.tree (grown.addTree part).2).size =
            part.size := by
        intro grown part
        rw [← Tree.size_map Node.tag, map_tag_addTree]
      have rightBelow := rightNumbered (store.addTree left).1
      rw [size_addTree] at rightBelow
      rw [tree_addTree_node]
      refine ⟨?_, leftNumbered store, ?_⟩
      · simp only [Tree.size, sameSize]
      · rw [sameSize]
        exact rightBelow

/--
In a store of its own, the records of a tree are found under their numbers.
-/
theorem get?_addTree_empty_iff
    {tree : Tree String}
    {id : Nat}
    {record : Record} :
    (empty.addTree tree).1.get? id = some record ↔
      record ∈ tree.records 0 ∧ record.id = id := by
  have number : ∀ {index : Nat} {found : Record},
      (tree.records 0)[index]? = some found → found.id = index + 1 := by
    intro index found atIndex
    have same : (List.range' 1 tree.size)[index]? = some found.id := by
      rw [← Nat.zero_add 1, ← Tree.map_id_records, List.getElem?_map, atIndex]
      rfl
    obtain ⟨inside, value⟩ := List.getElem?_eq_some_iff.mp same
    rw [List.getElem_range'] at value
    omega
  have member :
      record ∈ tree.records 0 ↔
        (tree.records 0)[record.id - 1]? = some record := by
    constructor
    · intro member
      obtain ⟨index, atIndex⟩ := List.mem_iff_getElem?.mp member
      rw [number atIndex, Nat.add_sub_cancel, atIndex]
    · exact List.mem_of_getElem?
  cases id with
  | zero =>
      refine iff_of_false (fun found => by cases found) ?_
      rintro ⟨isMember, isZero⟩
      have positive := number (member.mp isMember)
      omega
  | succ index =>
      rw [get?_succ_addTree_empty, member]
      constructor
      · intro atIndex
        have isNumber := number atIndex
        rw [isNumber, Nat.add_sub_cancel]
        exact ⟨atIndex, rfl⟩
      · rintro ⟨atNumber, isNumber⟩
        rwa [isNumber, Nat.add_sub_cancel] at atNumber

end Store

end Coprocessor
