import Coprocessor.Compile.Listing
import Coprocessor.Proofs.Language.Meaning
import Coprocessor.Proofs.Tree.Calls
import Coprocessor.Report.Graph

namespace Coprocessor.Store

/-!
# Walks by number

A tree in a store can be walked by numbers alone: look a number up, and go on
with the numbers of the children that are read back. No walk keeps a list of
where it has been, so a number that led back to itself would be followed without
end. Each walk below has a limit on how many nodes it follows one below the
other, and no result once the limit is passed. In a store that has grown from
nothing the number of its nodes is limit enough, and the result is what the tree
below the number gives.
-/

/-- Read an expression by the numbers of its nodes. -/
def expression? (store : Store) : Nat → Nat → Option Expr
  | 0, _ => none
  | limit + 1, id =>
      match store.get? id with
      | none => some .absent
      | some record =>
          match record.kind with
          | .literal => some (.literal record.tag)
          | .identifier => some (.variable record.tag)
          | .arithmetic operation => do
              let left ← store.expression? limit record.leftId
              let right ← store.expression? limit record.rightId
              return .arithmetic operation left right
          | .modulo => do
              let left ← store.expression? limit record.leftId
              let right ← store.expression? limit record.rightId
              return .modulo left right
          | .comparison relation => do
              let left ← store.expression? limit record.leftId
              let right ← store.expression? limit record.rightId
              return .comparison relation left right
          | .sequence | .conditional | .loop | .assignment | .alternatives =>
              some .misplaced

/-- Read a statement by the numbers of its nodes. -/
def statement? (store : Store) : Nat → Nat → Option Stmt
  | 0, _ => none
  | limit + 1, id =>
      match store.get? id with
      | none => some .skip
      | some record =>
          match record.kind with
          | .sequence => do
              let first ← store.statement? limit record.leftId
              let second ← store.statement? limit record.rightId
              return .sequence first second
          | .conditional => do
              let condition ← store.expression? limit record.leftId
              match (store.get? record.rightId).filter
                (·.kind = .alternatives) with
              | some bodies => do
                  let onTrue ← store.statement? limit bodies.leftId
                  let onFalse ← store.statement? limit bodies.rightId
                  return .choice condition onTrue onFalse
              | none => do
                  let body ← store.statement? limit record.rightId
                  return .conditional condition body
          | .loop => do
              let condition ← store.expression? limit record.leftId
              let body ← store.statement? limit record.rightId
              return .loop condition body
          | .assignment =>
              match (store.get? record.leftId).filter
                (·.kind = .identifier) with
              | some target => do
                  let value ← store.expression? limit record.rightId
                  return .assignment target.tag value
              | none => some .skip
          | .alternatives | .arithmetic _ | .modulo | .comparison _ | .literal
          | .identifier => do
              let value ← store.expression? (limit + 1) id
              return .evaluation value

/-- Write the rows of an outline by the numbers of the nodes. -/
def outlineRows? (store : Store) :
    Nat → Nat → Nat → Option (List Report.OutlineRow)
  | 0, _, _ => none
  | limit + 1, depth, id =>
      match store.get? id with
      | none => some []
      | some record => do
          let above ← store.outlineRows? limit (depth + 1) record.rightId
          let below ← store.outlineRows? limit (depth + 1) record.leftId
          return above ++ ⟨depth, record.id, record.tag⟩ :: below

/--
The edge to a child and the lines that a walk writes for it, nothing
without a child.
-/
def branchItems?
    (store : Store)
    (walk : Nat → Option (List Report.GraphItem))
    (parent child : Nat) :
    Option (List Report.GraphItem) :=
  match store.get? child with
  | none => some []
  | some below => (walk below.id).map (.edge parent below.id :: ·)

/-- Write the lines of a graph by the numbers of the nodes. -/
def graphItems? (store : Store) : Nat → Nat → Option (List Report.GraphItem)
  | 0, _ => none
  | limit + 1, id =>
      match store.get? id with
      | none => some []
      | some record => do
          let left ← store.branchItems? (store.graphItems? limit) record.id
            record.leftId
          let right ← store.branchItems? (store.graphItems? limit) record.id
            record.rightId
          return .node ⟨record.id, record.tag⟩ :: (left ++ right)

section Grounded

variable
    {store : Store}
    (grounded : store.Grounded)

include grounded

/--
A walk that stays below a limit meets no node, or one whose children
stay below one less.
-/
theorem Grounded.visit_cases
    {limit id : Nat}
    (below : min id store.size < limit + 1) :
    store.get? id = none ∧ store.tree id = .absent ∨
      ∃ record,
        store.get? id = some record ∧ record.id = id ∧
          record.kind = .ofTag record.tag ∧
          store.tree id =
            .node ⟨id, record.tag⟩ (store.tree record.leftId)
              (store.tree record.rightId) ∧
          min record.leftId store.size < limit ∧
          min record.rightId store.size < limit := by
  rcases grounded.get?_cases id with
    missing |
      ⟨record, found, number, kind, inside, leftSmaller,
          rightSmaller, shape⟩
  · exact .inl missing
  · refine .inr ⟨record, found, number, kind, shape, ?_, ?_⟩ <;> omega

theorem Grounded.expression?_eq
    {limit id : Nat}
    (below : min id store.size < limit) :
    store.expression? limit id =
      some (.ofTree ((store.tree id).map Node.tag)) := by
  induction limit generalizing id with
  | zero =>
      cases below
  | succ limit inductionHypothesis =>
      rcases grounded.visit_cases below with
        ⟨missing, absent⟩ |
          ⟨record, found, -, kind, shape, leftBelow, rightBelow⟩
      · simp [expression?, missing, absent, Tree.map, Expr.ofTree]
      · rw [expression?, found, shape, Tree.map, Expr.ofTree]
        simp only [kind, inductionHypothesis leftBelow,
          inductionHypothesis rightBelow]
        cases Kind.ofTag record.tag <;> rfl

theorem Grounded.statement?_eq
    {limit id : Nat}
    (below : min id store.size < limit) :
    store.statement? limit id = some (Compile.statementOf (store.tree id)) := by
  unfold Compile.statementOf
  induction limit generalizing id with
  | zero =>
      cases below
  | succ limit inductionHypothesis =>
      rcases grounded.visit_cases below with
        ⟨missing, absent⟩ |
          ⟨record, found, -, kind, shape, leftBelow, rightBelow⟩
      · simp [statement?, missing, absent, Tree.map, Stmt.ofTree]
      · have value := grounded.expression?_eq below
        have leftValue := grounded.expression?_eq leftBelow
        have rightValue := grounded.expression?_eq rightBelow
        have leftRuns := inductionHypothesis leftBelow
        have rightRuns := inductionHypothesis rightBelow
        rw [shape, Tree.map] at value ⊢
        rw [statement?, found]
        simp only [kind]
        cases tagKind : Kind.ofTag record.tag with
        | sequence =>
            simp [Stmt.ofTree_sequence tagKind, leftRuns, rightRuns]
        | loop =>
            simp [Stmt.ofTree_loop tagKind, leftValue, rightRuns]
        | conditional =>
            rcases grounded.visit_cases (Nat.lt_succ_of_lt rightBelow) with
              ⟨missing, absent⟩ |
                ⟨bodies, bodiesFound, -, bodiesKind, bodiesShape, trueBelow,
                  falseBelow⟩
            · rw [absent] at rightRuns ⊢
              simp [Stmt.ofTree, Tree.map, tagKind, leftValue, missing,
                rightRuns]
            · rw [bodiesShape] at rightRuns ⊢
              by_cases hasTwo : Kind.ofTag bodies.tag = .alternatives
              · simp [Stmt.ofTree, Tree.map, tagKind, leftValue, bodiesFound,
                  bodiesKind, hasTwo, Option.filter_some,
                  inductionHypothesis trueBelow, inductionHypothesis falseBelow]
              · simp [Stmt.ofTree, Tree.map, tagKind, leftValue, bodiesFound,
                  bodiesKind, hasTwo, Option.filter_some, rightRuns]
        | assignment =>
            rcases grounded.visit_cases (Nat.lt_succ_of_lt leftBelow) with
              ⟨missing, absent⟩ |
                ⟨target, targetFound, -, targetKind, targetShape, -, -⟩
            · simp [Stmt.ofTree_assignment tagKind, Stmt.assign, missing,
                absent, Tree.map]
            · by_cases isVariable : Kind.ofTag target.tag = .identifier <;>
                simp [Stmt.ofTree_assignment tagKind, Stmt.assign, targetFound,
                  targetKind, targetShape, Tree.map, isVariable,
                  Option.filter_some, rightValue]
        | _ =>
            rw [Stmt.ofTree_other (by simp [tagKind])]
            simp [value]

theorem Grounded.outlineRows?_eq
    {limit depth id : Nat}
    (below : min id store.size < limit) :
    store.outlineRows? limit depth id =
      some (Report.outlineRows depth (store.tree id)) := by
  induction limit generalizing depth id with
  | zero =>
      cases below
  | succ limit inductionHypothesis =>
      rcases grounded.visit_cases below with
        ⟨missing, absent⟩ |
          ⟨record, found, number, -, shape, leftBelow, rightBelow⟩
      · simp [outlineRows?, missing, absent, Report.outlineRows]
      · simp [outlineRows?, found, number, shape, Report.outlineRows,
          inductionHypothesis leftBelow, inductionHypothesis rightBelow]

/-- A walk that writes the lines of a child is continued by the edge to it. -/
theorem Grounded.branchItems?_eq
    {walk : Nat → Option (List Report.GraphItem)}
    {child : Nat}
    (parent : Nat)
    (walks : walk child = some (Report.graphItems (store.tree child))) :
    store.branchItems? walk parent child =
      some (Report.childEdge parent (store.tree child) ++
        Report.graphItems (store.tree child)) := by
  rcases grounded.get?_cases child with
    ⟨missing, absent⟩ | ⟨record, found, number, -, -, -, -, shape⟩
  · simp [branchItems?, missing, absent, Report.childEdge, Report.graphItems]
  · simp [branchItems?, found, number, walks, shape, Report.childEdge]

theorem Grounded.graphItems?_eq
    {limit id : Nat}
    (below : min id store.size < limit) :
    store.graphItems? limit id = some (Report.graphItems (store.tree id)) := by
  induction limit generalizing id with
  | zero =>
      cases below
  | succ limit inductionHypothesis =>
      rcases grounded.visit_cases below with
        ⟨missing, absent⟩ |
          ⟨record, found, number, -, shape, leftBelow, rightBelow⟩
      · simp [graphItems?, missing, absent, Report.graphItems]
      · have left := grounded.branchItems?_eq id (inductionHypothesis leftBelow)
        have right :=
          grounded.branchItems?_eq id (inductionHypothesis rightBelow)
        simp [graphItems?, found, number, left, right, shape, Report.graphItems]

end Grounded

/--
What calls leave behind in a store that they fill from nothing. Nodes are
numbered in the order of the calls; a child is kept exactly if its number was
taken when the node was added; nothing changes later; and every walk by number
comes to its end within as many nodes as there are, wherever it starts.
-/
structure CallsSound (calls : List Call) : Prop where
  answered :
    empty.answers calls = List.range' 1 calls.length
  counted :
    (empty.applyAll calls).size = calls.length
  found :
    ∀ id, ((empty.applyAll calls).get? id).map Record.id =
      if 0 < id ∧ id ≤ calls.length then some id else none
  recorded :
    ∀ before call after, calls = before ++ call :: after →
      (empty.applyAll calls).get? (before.length + 1) =
        some
          { id := before.length + 1
            tag := call.tag
            kind := .ofTag call.tag
            left :=
              if ((empty.applyAll before).get? call.left).isSome then
                some call.left
              else
                none
            right :=
              if ((empty.applyAll before).get? call.right).isSome then
                some call.right
              else
                none }
  childrenEarlier :
    ∀ id record child, (empty.applyAll calls).get? id = some record →
      record.left = some child ∨ record.right = some child →
      0 < child ∧ child < id
  recordsKept :
    ∀ later id, id ≤ calls.length →
      (empty.applyAll (calls ++ later)).get? id = (empty.applyAll calls).get? id
  expressionsEnd :
    ∀ limit id, calls.length < limit →
      (empty.applyAll calls).expression? limit id =
        some (.ofTree (((empty.applyAll calls).tree id).map Node.tag))
  statementsEnd :
    ∀ limit id, calls.length < limit →
      (empty.applyAll calls).statement? limit id =
        some (Compile.statementOf ((empty.applyAll calls).tree id))
  outlinesEnd :
    ∀ limit depth id, calls.length < limit →
      (empty.applyAll calls).outlineRows? limit depth id =
        some (Report.outlineRows depth ((empty.applyAll calls).tree id))
  graphsEnd :
    ∀ limit id, calls.length < limit →
      (empty.applyAll calls).graphItems? limit id =
        some (Report.graphItems ((empty.applyAll calls).tree id))
  assembliesKept :
    ∀ options symbols later root, root ≤ calls.length →
      Compile.assembly options symbols
        ((empty.applyAll (calls ++ later)).tree root) =
        Compile.assembly options symbols ((empty.applyAll calls).tree root)
  outlinesKept :
    ∀ later root, root ≤ calls.length →
      Report.outline ((empty.applyAll (calls ++ later)).tree root) =
        Report.outline ((empty.applyAll calls).tree root)
  graphsKept :
    ∀ later root, root ≤ calls.length →
      Report.graph ((empty.applyAll (calls ++ later)).tree root) =
        Report.graph ((empty.applyAll calls).tree root)

/-- Whatever numbers calls give for children, they leave a sound store. -/
theorem calls_sound (calls : List Call) : CallsSound calls := by
  have grounded : ∀ some : List Call, (empty.applyAll some).Grounded :=
    grounded_empty.applyAll
  have size : ∀ some : List Call, (empty.applyAll some).size = some.length := by
    intro some
    rw [size_applyAll, size_empty, Nat.zero_add]
  have kept :
      ∀ later id, id ≤ calls.length →
        (empty.applyAll (calls ++ later)).tree id =
          (empty.applyAll calls).tree id := by
    intro later id earlier
    rw [applyAll_append]
    exact tree_applyAll_of_le later ((size calls).symm ▸ earlier)
  have near :
      ∀ limit id, calls.length < limit →
        min id (empty.applyAll calls).size < limit := by
    intro limit id large
    exact Nat.lt_of_le_of_lt (Nat.min_le_right _ _) ((size calls).symm ▸ large)
  exact
    { answered := empty.answers_eq calls
      counted := size calls
      found := by
        intro id
        rw [map_id_get?, (grounded calls).rootId?_tree, size]
      recorded := by
        rintro before call after rfl
        rw [applyAll_append, ← size before]
        exact (grounded before).get?_applyAll_cons call after
      childrenEarlier := fun id record child => (grounded calls).child_lt
      recordsKept :=
        fun later id earlier => congrArg Tree.record? (kept later id earlier)
      expressionsEnd :=
        fun limit id large =>
          (grounded calls).expression?_eq (near limit id large)
      statementsEnd :=
        fun limit id large =>
          (grounded calls).statement?_eq (near limit id large)
      outlinesEnd := fun limit depth id large =>
        (grounded calls).outlineRows?_eq (near limit id large)
      graphsEnd :=
        fun limit id large =>
          (grounded calls).graphItems?_eq (near limit id large)
      assembliesKept := fun options symbols later root earlier =>
        congrArg (Compile.assembly options symbols) (kept later root earlier)
      outlinesKept :=
        fun later root earlier =>
          congrArg Report.outline (kept later root earlier)
      graphsKept :=
        fun later root earlier =>
          congrArg Report.graph (kept later root earlier) }

/--
A number that is given too early stays unknown: neither the node
itself nor a later one.
-/
example :
    let store := empty.applyAll [.unary "a" 1, .binary "b" 1 3, .leaf "c"]
    store.get? 1 = some ⟨1, "a", .identifier, none, none⟩ ∧
      store.get? 2 = some ⟨2, "b", .identifier, some 1, none⟩ := by
  decide

end Coprocessor.Store
