import Coprocessor.Proofs.Tree.Walks

namespace Coprocessor

/-!
# Unfolding a store

Below a number of a store lies a tree, which can be read along paths that
lead to the left or to the right at each node. A node that several parents
share lies on several paths. Two numbers, of one store or of two, unfold to
the same tree if every path leads from both of them to nodes with the same
tag or from both to nothing. The listing that is compiled from a number
depends on no more than that.
-/

/-- The side on which a child hangs. -/
inductive Side where
  | left
  | right
  deriving Repr, DecidableEq

/-- The subtree on a side of the root. -/
def Tree.child
    {Label : Type}
    (tree : Tree Label) :
    Side → Tree Label
  | .left => tree.left
  | .right => tree.right

/-- The label at the end of a path from the root. -/
def Tree.labelAt?
    {Label : Type}
    (tree : Tree Label) :
    List Side → Option Label
  | [] => tree.label?
  | side :: rest => (tree.child side).labelAt? rest

theorem Tree.labelAt?_absent
    {Label : Type}
    (path : List Side) :
    (Tree.absent : Tree Label).labelAt? path = none := by
  induction path with
  | nil =>
      rfl
  | cons side rest inductionHypothesis =>
      cases side <;> exact inductionHypothesis

theorem Tree.labelAt?_map
    {Label Image : Type}
    (change : Label → Image)
    (tree : Tree Label)
    (path : List Side) :
    (tree.map change).labelAt? path = (tree.labelAt? path).map change := by
  induction path generalizing tree with
  | nil =>
      cases tree <;> rfl
  | cons side rest inductionHypothesis =>
      cases tree with
      | absent =>
          cases side <;> exact inductionHypothesis .absent
      | node label left right =>
          cases side with
          | left =>
              exact inductionHypothesis left
          | right =>
              exact inductionHypothesis right

/-- The labels at the ends of all paths determine a tree. -/
theorem Tree.eq_of_labelAt?
    {Label : Type}
    {first second : Tree Label}
    (same : ∀ path, first.labelAt? path = second.labelAt? path) :
    first = second := by
  induction first generalizing second with
  | absent =>
      cases second with
      | absent =>
          rfl
      | node label left right =>
          cases same []
  | node label left right leftSame rightSame =>
      cases second with
      | absent =>
          cases same []
      | node otherLabel otherLeft otherRight =>
          obtain rfl : label = otherLabel :=
            Option.some.inj (same [])
          obtain rfl : left = otherLeft :=
            leftSame fun path => same (.left :: path)
          obtain rfl : right = otherRight :=
            rightSame fun path => same (.right :: path)
          rfl

/--
The number under which the child on a side is looked up, zero without one.
-/
def Record.childId
    (record : Record) :
    Side → Nat
  | .left => record.leftId
  | .right => record.rightId

namespace Store

/--
The record that is found from a number along a path, looked up node by node.
-/
def recordAt?
    (store : Store)
    (id : Nat) :
    List Side → Option Record
  | [] => store.get? id
  | side :: rest =>
      match store.get? id with
      | none => none
      | some record => store.recordAt? (record.childId side) rest

/--
Every path leads from two numbers to nodes with the same tag, or
from both to nothing.
-/
def UnfoldAlike
    (first : Store)
    (firstRoot : Nat)
    (second : Store)
    (secondRoot : Nat) :
    Prop :=
  ∀ path,
    (first.recordAt? firstRoot path).map Record.tag =
      (second.recordAt? secondRoot path).map Record.tag

/-- Compile the tree below a number, read by the numbers of its nodes. -/
def assembly?
    (store : Store)
    (limit : Nat)
    (options : Compile.Options)
    (symbols : Symbol.Table)
    (root : Nat) :
    Option String :=
  (store.statement? limit root).map fun body =>
    (Compile.listing options symbols body).render

/--
Looking nodes up along a path gives the tag at the end of the path in the tree.
-/
theorem Grounded.tag_recordAt?
    {store : Store}
    (grounded : store.Grounded)
    (id : Nat)
    (path : List Side) :
    (store.recordAt? id path).map Record.tag =
      ((store.tree id).map Node.tag).labelAt? path := by
  induction path generalizing id with
  | nil =>
      rw [recordAt?]
      rcases grounded.get?_cases id with
        ⟨missing, absent⟩ | ⟨record, found, -, -, -, -, -, shape⟩
      · rw [missing, absent]
        rfl
      · rw [found, shape]
        rfl
  | cons side rest inductionHypothesis =>
      rw [recordAt?]
      rcases grounded.get?_cases id with
        ⟨missing, absent⟩ | ⟨record, found, -, -, -, -, -, shape⟩
      · rw [missing, absent, Tree.map, Tree.labelAt?_absent]
        rfl
      · rw [found, shape]
        cases side with
        | left =>
            exact inductionHypothesis record.leftId
        | right =>
            exact inductionHypothesis record.rightId

/--
Two numbers unfold alike exactly if the trees below them have the same tags.
-/
theorem Grounded.unfoldAlike_iff
    {first second : Store}
    (firstGrounded : first.Grounded)
    (secondGrounded : second.Grounded)
    {firstRoot secondRoot : Nat} :
    UnfoldAlike first firstRoot second secondRoot ↔
      (first.tree firstRoot).map Node.tag =
        (second.tree secondRoot).map Node.tag := by
  constructor
  · intro alike
    apply Tree.eq_of_labelAt?
    intro path
    rw [← firstGrounded.tag_recordAt?, ← secondGrounded.tag_recordAt?]
    exact alike path
  · intro same path
    rw [firstGrounded.tag_recordAt?, secondGrounded.tag_recordAt?, same]

/-- Reading a tree by numbers and compiling it gives the listing of the tree. -/
theorem Grounded.assembly?_eq
    {store : Store}
    (grounded : store.Grounded)
    {limit : Nat}
    (large : store.size < limit)
    (options : Compile.Options)
    (symbols : Symbol.Table)
    (root : Nat) :
    store.assembly? limit options symbols root =
      some (Compile.assembly options symbols (store.tree root)) := by
  have below : min root store.size < limit :=
    Nat.lt_of_le_of_lt (Nat.min_le_right _ _) large
  rw [assembly?, grounded.statement?_eq below]
  rfl

/--
The compiler sees the tree and not the store: whatever calls have filled two
stores, numbers that unfold to the same tree are compiled to the same text, also
where the compiler reads the stores node by node.
-/
theorem assembly_of_unfoldAlike
    (firstCalls secondCalls : List Call)
    (firstRoot secondRoot : Nat)
    (alike :
      UnfoldAlike (empty.applyAll firstCalls) firstRoot
        (empty.applyAll secondCalls) secondRoot)
    (options : Compile.Options)
    (symbols : Symbol.Table) :
    ∃ text,
      Compile.assembly options symbols
        ((empty.applyAll firstCalls).tree firstRoot) = text ∧
      Compile.assembly options symbols
        ((empty.applyAll secondCalls).tree secondRoot) = text ∧
      (∀ limit, firstCalls.length < limit →
        (empty.applyAll firstCalls).assembly? limit options symbols firstRoot =
          some text) ∧
      (∀ limit, secondCalls.length < limit →
        (empty.applyAll secondCalls).assembly? limit options symbols
          secondRoot =
          some text) := by
  have grounded : ∀ calls : List Call, (empty.applyAll calls).Grounded :=
    grounded_empty.applyAll
  have size :
      ∀ calls : List Call, (empty.applyAll calls).size = calls.length := by
    intro calls
    rw [size_applyAll, size_empty, Nat.zero_add]
  have sameTags :=
    ((grounded firstCalls).unfoldAlike_iff (grounded secondCalls)).mp alike
  have sameText :
      Compile.assembly options symbols
        ((empty.applyAll secondCalls).tree secondRoot) =
        Compile.assembly options symbols
          ((empty.applyAll firstCalls).tree firstRoot) := by
    simp only [Compile.assembly, Compile.statementOf, sameTags]
  refine ⟨_, rfl, sameText, ?_, ?_⟩
  · intro limit large
    exact (grounded firstCalls).assembly?_eq ((size firstCalls).symm ▸ large)
      options symbols firstRoot
  · intro limit large
    rw [← sameText]
    exact (grounded secondCalls).assembly?_eq ((size secondCalls).symm ▸ large)
      options symbols secondRoot

/--
A sum of a node with itself is compiled like a sum of two nodes among others.
-/
theorem assembly_of_unfoldAlike_shared :
    let shared := empty.applyAll [.leaf "x", .binary "+" 1 1]
    let copied :=
      empty.applyAll
        [.leaf "y", .leaf "x", .leaf "x", .binary "+" 3 2, .unary ";" 1]
    shared.get? 2 = some ⟨2, "+", .arithmetic .add, some 1, some 1⟩ ∧
      copied.get? 4 = some ⟨4, "+", .arithmetic .add, some 3, some 2⟩ ∧
      UnfoldAlike shared 2 copied 4 ∧
      Compile.assembly {} .empty (shared.tree 2) =
        Compile.assembly {} .empty (copied.tree 4) := by
  intro shared copied
  have alike : UnfoldAlike shared 2 copied 4 := by
    apply ((grounded_empty.applyAll _).unfoldAlike_iff
      (grounded_empty.applyAll _)).mpr
    decide
  obtain ⟨text, firstText, secondText, -, -⟩ :=
    assembly_of_unfoldAlike [.leaf "x", .binary "+" 1 1]
      [.leaf "y", .leaf "x", .leaf "x", .binary "+" 3 2, .unary ";" 1] 2 4 alike
      {} .empty
  exact ⟨by decide, by decide, alike, firstText.trans secondText.symm⟩

end Store

end Coprocessor
