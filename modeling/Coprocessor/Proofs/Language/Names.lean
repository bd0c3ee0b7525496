import Coprocessor.Language.Stmt
import Mathlib

namespace Coprocessor

/-!
# Names of variables

The variables of an expression or a statement are named by tags of the tree that
it stands for. A tree may hold more of these tags, where they are not reached.
-/

/-- The tags of a tree that name variables. -/
def Tree.identifiers : Tree String → List String
  | .absent => []
  | .node tag left right =>
      (if Kind.ofTag tag = .identifier then [tag] else []) ++
        (left.identifiers ++ right.identifiers)

/-- The names of the variables of an expression, as they are written. -/
def Expr.names : Expr → List String
  | .absent | .misplaced | .literal _ => []
  | .variable name => [name]
  | .arithmetic _ left right | .modulo left right | .comparison _ left right =>
      left.names ++ right.names

/-- The names of the variables of a statement, as they are written. -/
def Stmt.names : Stmt → List String
  | .skip => []
  | .sequence first second => first.names ++ second.names
  | .conditional condition body | .loop condition body =>
      condition.names ++ body.names
  | .choice condition onTrue onFalse =>
      condition.names ++ (onTrue.names ++ onFalse.names)
  | .assignment target value => target :: value.names
  | .evaluation value => value.names

theorem Expr.names_ofTree (tree : Tree String) :
    (ofTree tree).names ⊆ tree.identifiers := by
  induction tree with
  | absent =>
      exact List.Subset.refl _
  | node tag left right leftSubset rightSubset =>
      rw [ofTree, Tree.identifiers]
      cases kind : Kind.ofTag tag <;> simp only [names] <;> grind

theorem Stmt.names_assign
    (target : Tree String)
    (value : Expr) :
    (assign target value).names ⊆ target.identifiers ++ value.names := by
  cases target with
  | absent =>
      exact List.nil_subset _
  | node tag left right =>
      by_cases isVariable : Kind.ofTag tag = .identifier
      · simp only [assign, isVariable, names, Tree.identifiers, ↓reduceIte]
        grind
      · simp [assign, isVariable, names]

theorem Stmt.names_ofTree (tree : Tree String) :
    (ofTree tree).names ⊆ tree.identifiers := by
  have inOperand := Expr.names_ofTree
  fun_induction ofTree tree with
  | case1 =>
      exact List.Subset.refl _
  | case2 tag left right isSequence first second =>
      simp only [names, Tree.identifiers]
      grind
  | case3 tag condition isConditional =>
      simp only [names, Tree.identifiers]
      grind
  | case4 tag condition isConditional inner onTrue onFalse hasTwo first
      second =>
      simp only [names, Tree.identifiers]
      grind
  | case5 tag condition isConditional inner left right hasOne body =>
      rw [Tree.identifiers]
      simp only [names]
      grind
  | case6 tag condition body isLoop inductionHypothesis =>
      simp only [names, Tree.identifiers]
      grind
  | case7 tag target value isAssignment =>
      have assigned := names_assign target (.ofTree value)
      rw [Tree.identifiers]
      grind
  | case8 tag left right kind
  | case9 tag left right operation kind
  | case10 tag left right kind
  | case11 tag left right relation kind
  | case12 tag left right kind
  | case13 tag left right kind =>
      exact inOperand _

end Coprocessor
