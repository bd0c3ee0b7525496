import Coprocessor.Tree.Kind
import Coprocessor.Tree.Store

namespace Coprocessor

/-!
# Calls on a store

A store grows by calls that add a leaf, a node with one child or a node with
two. The children are given by number, and any number may be given: that of an
earlier node, zero, the number of the node itself or one that no node has yet.
The node keeps a child only if the number names an earlier node, so in a store
that has grown from nothing every tree lies above trees of smaller numbers.
-/

/--
What a store tells about a node: its number, tag and kind, and the
numbers of its children.
-/
structure Record where
  id : Nat
  tag : String
  kind : Kind
  left : Option Nat
  right : Option Nat
  deriving Repr, DecidableEq

/-- The number under which the left child is looked up, zero without one. -/
def Record.leftId (record : Record) : Nat :=
  record.left.getD 0

/-- The number under which the right child is looked up, zero without one. -/
def Record.rightId (record : Record) : Nat :=
  record.right.getD 0

/-- The number of the root of a tree, if there is a root. -/
def Tree.rootId? (tree : Tree Node) : Option Nat :=
  tree.label?.map Node.id

/-- The record of the root of a tree. -/
def Tree.record? : Tree Node → Option Record
  | .absent => none
  | .node label left right =>
      some
        { id := label.id
          tag := label.tag
          kind := .ofTag label.tag
          left := left.rootId?
          right := right.rootId? }

/-- A call that adds a node. -/
inductive Call where
  | leaf (tag : String)
  | unary (tag : String) (child : Nat)
  | binary (tag : String) (left right : Nat)
  deriving Repr, DecidableEq

namespace Call

/-- The tag of the new node. -/
def tag : Call → String
  | .leaf tag | .unary tag _ | .binary tag _ _ => tag

/-- The number given for the left child. -/
def left : Call → Nat
  | .leaf _ => 0
  | .unary _ child => child
  | .binary _ left _ => left

/-- The number given for the right child. -/
def right : Call → Nat
  | .leaf _ | .unary _ _ => 0
  | .binary _ _ right => right

end Call

namespace Store

/-- The record of the node that a number names. -/
def get?
    (store : Store)
    (id : Nat) :
    Option Record :=
  (store.tree id).record?

/--
What is found under a number has the number of the root of the tree there.
-/
theorem map_id_get?
    (store : Store)
    (id : Nat) :
    (store.get? id).map Record.id = (store.tree id).rootId? := by
  rw [get?]
  cases store.tree id <;> rfl

/-- The store after a call. -/
def apply
    (store : Store)
    (call : Call) :
    Store :=
  store.add call.tag call.left call.right

/-- The store after calls in their order. -/
def applyAll
    (store : Store)
    (calls : List Call) :
    Store :=
  calls.foldl apply store

/-- The numbers that calls return, each the number of the latest node. -/
def answers
    (store : Store) :
    List Call → List Nat
  | [] => []
  | call :: rest => (store.apply call).size :: (store.apply call).answers rest

@[simp] theorem size_apply
    (store : Store)
    (call : Call) :
    (store.apply call).size = store.size + 1 :=
  store.size_add call.tag call.left call.right

@[simp] theorem applyAll_cons
    (store : Store)
    (call : Call)
    (rest : List Call) :
    store.applyAll (call :: rest) = (store.apply call).applyAll rest :=
  rfl

@[simp] theorem applyAll_append
    (store : Store)
    (first second : List Call) :
    store.applyAll (first ++ second) = (store.applyAll first).applyAll second :=
  List.foldl_append

@[simp] theorem size_applyAll
    (store : Store)
    (calls : List Call) :
    (store.applyAll calls).size = store.size + calls.length := by
  induction calls generalizing store with
  | nil =>
      rfl
  | cons call rest inductionHypothesis =>
      rw [applyAll_cons, inductionHypothesis, size_apply, List.length_cons]
      omega

/-- Calls return consecutive numbers. -/
theorem answers_eq
    (store : Store)
    (calls : List Call) :
    store.answers calls = List.range' (store.size + 1) calls.length := by
  induction calls generalizing store with
  | nil =>
      rfl
  | cons call rest inductionHypothesis =>
      rw [answers, inductionHypothesis, size_apply, List.length_cons,
        List.range'_succ]

/-- Calls do not change the trees that are there. -/
theorem tree_applyAll_of_le
    {store : Store}
    {id : Nat}
    (calls : List Call)
    (earlier : id ≤ store.size) :
    (store.applyAll calls).tree id = store.tree id := by
  induction calls generalizing store with
  | nil =>
      rfl
  | cons call rest inductionHypothesis =>
      have still : id ≤ (store.apply call).size := by
        rw [size_apply]
        exact Nat.le_succ_of_le earlier
      rw [applyAll_cons, inductionHypothesis still]
      exact tree_add_of_le call.tag call.left call.right earlier

/--
Every tree carries its number, and lies above the trees of two smaller numbers.
-/
def Grounded (store : Store) : Prop :=
  ∀ id, 0 < id → id ≤ store.size →
    ∃ tag left right,
      left < id ∧ right < id ∧
        store.tree id = .node ⟨id, tag⟩ (store.tree left) (store.tree right)

theorem grounded_empty : empty.Grounded := by
  intro id positive inside
  rw [size_empty] at inside
  omega

/-- A number that names no earlier node can be read as zero. -/
theorem exists_tree_le_size
    (store : Store)
    (id : Nat) :
    ∃ known, known ≤ store.size ∧ store.tree known = store.tree id := by
  by_cases inside : id ≤ store.size
  · exact ⟨id, inside, rfl⟩
  · refine ⟨0, Nat.zero_le _, ?_⟩
    rw [tree_zero, tree_of_size_lt (Nat.lt_of_not_le inside)]

/--
A call keeps a store grounded, whatever numbers it gives for the children.
-/
theorem Grounded.apply
    {store : Store}
    (grounded : store.Grounded)
    (call : Call) :
    (store.apply call).Grounded := by
  intro id positive inside
  rw [size_apply] at inside
  have kept :
      ∀ known, known ≤ store.size →
        (store.apply call).tree known = store.tree known :=
    fun known earlier => tree_add_of_le call.tag call.left call.right earlier
  rcases Nat.lt_or_eq_of_le inside with old | rfl
  · have earlier : id ≤ store.size :=
      Nat.le_of_lt_succ old
    obtain ⟨tag, left, right, leftSmaller, rightSmaller, shape⟩ :=
      grounded id positive earlier
    refine ⟨tag, left, right, leftSmaller, rightSmaller, ?_⟩
    rw [kept id earlier,
      kept left (Nat.le_trans (Nat.le_of_lt leftSmaller) earlier),
      kept right (Nat.le_trans (Nat.le_of_lt rightSmaller) earlier), shape]
  · obtain ⟨left, leftKnown, leftTree⟩ := store.exists_tree_le_size call.left
    obtain ⟨right, rightKnown, rightTree⟩ :=
      store.exists_tree_le_size call.right
    refine ⟨call.tag, left, right, Nat.lt_succ_of_le leftKnown,
      Nat.lt_succ_of_le rightKnown, ?_⟩
    rw [kept left leftKnown, kept right rightKnown, leftTree, rightTree]
    exact store.tree_add_last call.tag call.left call.right

theorem Grounded.applyAll
    {store : Store}
    (grounded : store.Grounded)
    (calls : List Call) :
    (store.applyAll calls).Grounded := by
  induction calls generalizing store with
  | nil =>
      exact grounded
  | cons call rest inductionHypothesis =>
      exact inductionHypothesis (grounded.apply call)

section Grounded

variable
    {store : Store}
    (grounded : store.Grounded)

include grounded

/-- A number is the number of the root of its tree, unless it names no node. -/
theorem Grounded.rootId?_tree (id : Nat) :
    (store.tree id).rootId? =
      if 0 < id ∧ id ≤ store.size then some id else none := by
  by_cases inside : 0 < id ∧ id ≤ store.size
  · obtain ⟨tag, left, right, -, -, shape⟩ := grounded id inside.1 inside.2
    rw [if_pos inside, shape]
    rfl
  · have absent : store.tree id = .absent := by
      rcases Nat.eq_zero_or_pos id with rfl | positive
      · exact store.tree_zero
      · exact tree_of_size_lt
          (Nat.lt_of_not_le fun known => inside ⟨positive, known⟩)
    rw [if_neg inside, absent]
    rfl

/-- A tree can be looked up again by the number of its root. -/
theorem Grounded.tree_rootId? (id : Nat) :
    store.tree ((store.tree id).rootId?.getD 0) = store.tree id := by
  have root := grounded.rootId?_tree id
  cases tree : store.tree id with
  | absent =>
      exact store.tree_zero
  | node label left right =>
      rw [← tree, root]
      split
      case isTrue inside =>
          rfl
      case isFalse outside =>
          rw [if_neg outside, tree] at root
          cases root

/--
The number of the root of a tree is not larger than the number that
names the tree.
-/
theorem Grounded.rootId?_le (id : Nat) :
    (store.tree id).rootId?.getD 0 ≤ id := by
  rw [grounded.rootId?_tree id]
  split
  · exact Nat.le_refl id
  · exact Nat.zero_le id

/--
A number names nothing, or a node whose children are named by smaller numbers.
-/
theorem Grounded.get?_cases (id : Nat) :
    store.get? id = none ∧ store.tree id = .absent ∨
      ∃ record,
        store.get? id = some record ∧
          record.id = id ∧ record.kind = .ofTag record.tag ∧
            id ≤ store.size ∧ record.leftId < id ∧ record.rightId < id ∧
              store.tree id =
                .node ⟨id, record.tag⟩
                  (store.tree record.leftId) (store.tree record.rightId) := by
  have root := grounded.rootId?_tree id
  by_cases inside : 0 < id ∧ id ≤ store.size
  · right
    obtain ⟨tag, left, right, leftSmaller, rightSmaller, shape⟩ :=
      grounded id inside.1 inside.2
    refine ⟨⟨id, tag, .ofTag tag, (store.tree left).rootId?,
      (store.tree right).rootId?⟩,
      by rw [get?, shape]; rfl, rfl, rfl, inside.2,
      Nat.lt_of_le_of_lt (grounded.rootId?_le left) leftSmaller,
      Nat.lt_of_le_of_lt (grounded.rootId?_le right) rightSmaller, ?_⟩
    rw [shape, Record.leftId, Record.rightId, grounded.tree_rootId?,
      grounded.tree_rootId?]
  · left
    rw [if_neg inside] at root
    rw [get?]
    cases tree : store.tree id with
    | absent =>
        exact ⟨rfl, rfl⟩
    | node label left right =>
        rw [tree] at root
        cases root

/-- Exactly the numbers from one to the number of nodes name nodes. -/
theorem Grounded.isSome_get? (id : Nat) :
    (store.get? id).isSome = true ↔ 0 < id ∧ id ≤ store.size := by
  rw [← Option.isSome_map, map_id_get?, grounded.rootId?_tree id]
  split
  case isTrue inside =>
      simp [inside]
  case isFalse outside =>
      simp [outside]

/-- The number of a child is smaller than that of its parent, and not zero. -/
theorem Grounded.child_lt
    {id child : Nat}
    {record : Record}
    (found : store.get? id = some record)
    (isChild : record.left = some child ∨ record.right = some child) :
    0 < child ∧ child < id := by
  have named : ∀ given, given < id → (store.tree given).rootId? = some child →
      0 < child ∧ child < id := by
    intro given smaller root
    rw [grounded.rootId?_tree given] at root
    split at root
    case isTrue inside =>
        obtain rfl := Option.some.inj root
        exact ⟨inside.1, smaller⟩
    case isFalse =>
        cases root
  have inside := (grounded.isSome_get? id).mp (by rw [found]; rfl)
  obtain ⟨tag, left, right, leftSmaller, rightSmaller, shape⟩ :=
    grounded id inside.1 inside.2
  rw [get?, shape] at found
  obtain rfl := Option.some.inj found
  rcases isChild with isLeft | isRight
  · exact named left leftSmaller isLeft
  · exact named right rightSmaller isRight

/--
The record of a node that is looked up behind later calls is that of the
call that added it.
-/
theorem Grounded.get?_applyAll_cons
    (call : Call)
    (later : List Call) :
    (store.applyAll (call :: later)).get? (store.size + 1) =
      some
        { id := store.size + 1
          tag := call.tag
          kind := .ofTag call.tag
          left :=
            if (store.get? call.left).isSome then some call.left else none
          right :=
            if (store.get? call.right).isSome then
              some call.right
            else
              none } := by
  have added :
      (store.apply call).tree (store.size + 1) =
        .node ⟨store.size + 1, call.tag⟩ (store.tree call.left)
          (store.tree call.right) :=
    store.tree_add_last call.tag call.left call.right
  have known : store.size + 1 ≤ (store.apply call).size :=
    Nat.le_of_eq (store.size_apply call).symm
  rw [get?, applyAll_cons, tree_applyAll_of_le later known, added, Tree.record?]
  simp only [grounded.rootId?_tree, grounded.isSome_get?]

end Grounded

end Store

end Coprocessor
