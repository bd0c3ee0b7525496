import Coprocessor.Proofs.Tree.Walks

namespace Coprocessor

/-!
# Steps of a statement

A statement is a list of steps, however its sequences are nested: dissolve the
sequences, drop what is absent, and the rest stands in the order in which it is
run. The compiler sees no more than this list. It emits the steps one after the
other, each from where the one before has left the counters, and two trees with
the same steps are compiled to the same text. The bodies of conditionals and
loops may be regrouped as well, but not the body of a conditional that holds two
alternatives, which is no longer one if a sequence is put around it.
-/

/--
The steps of a tree, left before right; an absent tree and an empty
sequence have none.
-/
def Tree.steps : Tree String → List (Tree String)
  | .absent => []
  | .node tag left right =>
      if Kind.ofTag tag = .sequence then
        left.steps ++ right.steps
      else
        [.node tag left right]

namespace Stmt

/--
Statements one after the other, as sequences that are nested to the right.
-/
def chain : List Stmt → Stmt
  | [] => .skip
  | first :: rest => .sequence first (chain rest)

/--
The steps of a statement, in which every body is a chain of its own steps.
-/
def steps : Stmt → List Stmt
  | .skip => []
  | .sequence first second => first.steps ++ second.steps
  | .conditional condition body => [.conditional condition (chain body.steps)]
  | .choice condition onTrue onFalse =>
      [.choice condition (chain onTrue.steps) (chain onFalse.steps)]
  | .loop condition body => [.loop condition (chain body.steps)]
  | .assignment target value => [.assignment target value]
  | .evaluation value => [.evaluation value]

end Stmt

namespace Compile

namespace Fragment

/-- What has been emitted before the first statement. -/
def nothing : Fragment :=
  ⟨[], [], .start⟩

/--
Emit a statement behind what has been emitted, from where the counters stand.
-/
def emit
    (options : Options)
    (emitted : Fragment)
    (body : Stmt) :
    Fragment :=
  let added := statement options body emitted.next
  ⟨emitted.data ++ added.data, emitted.code ++ added.code, added.next⟩

/-- Emit statements in their order, all behind each other. -/
def emitAll
    (options : Options)
    (emitted : Fragment)
    (bodies : List Stmt) :
    Fragment :=
  bodies.foldl (emit options) emitted

variable (options : Options) (emitted : Fragment)

@[simp] theorem emit_skip : emitted.emit options .skip = emitted := by
  simp [emit, statement]

@[simp] theorem emit_sequence (first second : Stmt) :
    emitted.emit options (.sequence first second) =
      (emitted.emit options first).emit options second := by
  simp [emit, statement]

theorem emitAll_append (first second : List Stmt) :
    emitted.emitAll options (first ++ second) =
      (emitted.emitAll options first).emitAll options second :=
  List.foldl_append

/-- Emitting a chain is emitting its members. -/
theorem emit_chain (bodies : List Stmt) :
    emitted.emit options (.chain bodies) = emitted.emitAll options bodies := by
  induction bodies generalizing emitted with
  | nil =>
      exact emit_skip options emitted
  | cons first rest inductionHypothesis =>
      rw [Stmt.chain, emit_sequence, inductionHypothesis]
      rfl

/-- The steps of a tree, emitted in their order, are all that the tree emits. -/
theorem emitAll_treeSteps (tree : Tree String) :
    emitted.emitAll options (tree.steps.map .ofTree) =
      emitted.emit options (.ofTree tree) := by
  induction tree generalizing emitted with
  | absent =>
      exact (emit_skip options emitted).symm
  | node tag left right leftHypothesis rightHypothesis =>
      rw [Tree.steps]
      split
      case isTrue isSequence =>
          rw [Stmt.ofTree_sequence isSequence, emit_sequence, List.map_append,
            emitAll_append, leftHypothesis, rightHypothesis]
      case isFalse =>
          rfl

/--
A chain is compiled like a statement if its members emit what the
statement emits.
-/
theorem statement_chain_of_emitAll
    {body : Stmt}
    {bodies : List Stmt}
    (same :
      ∀ emitted : Fragment,
        emitted.emitAll options bodies = emitted.emit options body) :
    statement options (.chain bodies) = statement options body := by
  funext counters
  have emits : ∀ any, (⟨[], [], counters⟩ : Fragment).emit options any =
      statement options any counters := by
    intro any
    simp [emit]
  rw [← emits, ← emits, emit_chain, same]

/--
The steps of a statement emit what it emits, although their bodies
are regrouped.
-/
theorem emitAll_stmtSteps (body : Stmt) :
    emitted.emitAll options body.steps = emitted.emit options body := by
  induction body generalizing emitted with
  | skip =>
      exact (emit_skip options emitted).symm
  | sequence first second firstHypothesis secondHypothesis =>
      rw [Stmt.steps, emitAll_append, firstHypothesis, secondHypothesis,
        emit_sequence]
  | conditional condition body inductionHypothesis =>
      have bodySame := statement_chain_of_emitAll options inductionHypothesis
      simp [Stmt.steps, emitAll, emit, statement, bodySame]
  | choice condition onTrue onFalse trueHypothesis falseHypothesis =>
      have trueSame := statement_chain_of_emitAll options trueHypothesis
      have falseSame := statement_chain_of_emitAll options falseHypothesis
      simp [Stmt.steps, emitAll, emit, statement, trueSame, falseSame]
  | loop condition body inductionHypothesis =>
      have bodySame := statement_chain_of_emitAll options inductionHypothesis
      simp [Stmt.steps, emitAll, emit, statement, bodySame]
  | assignment target value =>
      rfl
  | evaluation value =>
      rfl

end Fragment

section Texts

variable
    (options : Options)
    (symbols : Symbol.Table)
    (tree : Tree Node)

theorem assembly_eq_emit :
    assembly options symbols tree =
      (listingAround options symbols
        (Fragment.nothing.emit options (statementOf tree))).render :=
  rfl

/--
The text of a tree is that of its steps, emitted one after the other
into one fragment.
-/
theorem assembly_eq_emitAll :
    assembly options symbols tree =
      (listingAround options symbols
        (Fragment.nothing.emitAll options
          ((tree.map Node.tag).steps.map .ofTree))).render := by
  rw [assembly_eq_emit, Fragment.emitAll_treeSteps]
  rfl

end Texts

end Compile

namespace Store

open Compile

/--
The nesting of sequences does not matter. Wherever a tree stands in a store, its
text is that of its steps, emitted one after the other into one fragment; so two
numbers whose trees have the same steps are compiled to the same text, and it is
enough if they have the same steps with the bodies of the steps regrouped.
-/
theorem assembly_of_steps
    (store : Store)
    (options : Options)
    (symbols : Symbol.Table) :
    (∀ root,
      assembly options symbols (store.tree root) =
        (listingAround options symbols
          (Fragment.nothing.emitAll options
            (((store.tree root).map Node.tag).steps.map .ofTree))).render) ∧
      (∀ first second,
        ((store.tree first).map Node.tag).steps =
          ((store.tree second).map Node.tag).steps →
          assembly options symbols (store.tree first) =
            assembly options symbols (store.tree second)) ∧
      ∀ first second,
        (statementOf (store.tree first)).steps =
          (statementOf (store.tree second)).steps →
          assembly options symbols (store.tree first) =
            assembly options symbols (store.tree second) := by
  refine ⟨fun root => assembly_eq_emitAll options symbols _, ?_, ?_⟩
  · intro first second same
    rw [assembly_eq_emitAll, assembly_eq_emitAll, same]
  · intro first second same
    rw [assembly_eq_emit, assembly_eq_emit, ← Fragment.emitAll_stmtSteps, same,
      Fragment.emitAll_stmtSteps]

/--
Statements that are nested to the left, to the right, and inside a
loop, and share nodes.
-/
def nestings : Store :=
  empty.applyAll
    [.leaf "x", .leaf "1", .binary "=" 1 2, .binary "if" 1 3, .leaf ";",
      .binary ";" 3 4, .binary ";" 6 1,
      .binary ";" 4 1, .binary ";" 5 8, .binary ";" 3 9, .unary ";" 10,
      .binary "while" 1 7, .binary "while" 1 11]

theorem assembly_of_steps_nestings :
    ((nestings.tree 7).map Node.tag).steps =
      ((nestings.tree 11).map Node.tag).steps ∧
      ((nestings.tree 12).map Node.tag).steps ≠
        ((nestings.tree 13).map Node.tag).steps ∧
      (statementOf (nestings.tree 12)).steps =
        (statementOf (nestings.tree 13)).steps ∧
      assembly {} .empty (nestings.tree 7) =
        assembly {} .empty (nestings.tree 11) ∧
      assembly {} .empty (nestings.tree 12) =
        assembly {} .empty (nestings.tree 13) := by
  have steps :
      ((nestings.tree 7).map Node.tag).steps =
        ((nestings.tree 11).map Node.tag).steps := by
    decide
  have regrouped :
      (statementOf (nestings.tree 12)).steps =
        (statementOf (nestings.tree 13)).steps := by
    decide
  obtain ⟨-, ofSteps, ofRegrouped⟩ := assembly_of_steps nestings {} .empty
  exact ⟨steps, by decide, regrouped, ofSteps 7 11 steps,
    ofRegrouped 12 13 regrouped⟩

/--
The alternatives of a conditional are no longer found if a sequence
is put around them.
-/
example :
    Stmt.steps
      (.ofTree
        (.node "if" (.leaf "x") (.node "cuerpo" (.leaf "y") (.leaf "z")))) ≠
      Stmt.steps (.ofTree (.node "if" (.leaf "x")
        (.node ";" (.node "cuerpo" (.leaf "y") (.leaf "z")) .absent))) := by
  decide

end Store

end Coprocessor
