import Coprocessor.Language.Expr

namespace Coprocessor

/-!
# Statements

What a tree means where a statement is wanted. A conditional with an
`alternatives` node as its body chooses between the two children of that node;
with any other body it runs the body or nothing. An assignment whose target is
not a variable is no statement at all, and an expression is evaluated for
nothing.
-/

/-- A statement. -/
inductive Stmt where
  | skip
  | sequence (first second : Stmt)
  | conditional (condition : Expr) (body : Stmt)
  | choice (condition : Expr) (onTrue onFalse : Stmt)
  | loop (condition : Expr) (body : Stmt)
  | assignment (target : String) (value : Expr)
  | evaluation (value : Expr)
  deriving Repr, DecidableEq

namespace Stmt

/--
The assignment to the variable at the root of a tree, and nothing
without such a variable.
-/
def assign
    (target : Tree String)
    (value : Expr) :
    Stmt :=
  match target with
  | .absent => .skip
  | .node tag _ _ =>
      if Kind.ofTag tag = .identifier then
        .assignment tag value
      else
        .skip

/-- The statement that a tree of tags stands for. -/
def ofTree : Tree String → Stmt
  | .absent => .skip
  | .node tag left right =>
      match Kind.ofTag tag with
      | .sequence => .sequence (ofTree left) (ofTree right)
      | .conditional =>
          match right with
          | .absent => .conditional (.ofTree left) .skip
          | .node inner onTrue onFalse =>
              if Kind.ofTag inner = .alternatives then
                .choice (.ofTree left) (ofTree onTrue) (ofTree onFalse)
              else
                .conditional (.ofTree left)
                (ofTree (.node inner onTrue onFalse))
      | .loop => .loop (.ofTree left) (ofTree right)
      | .assignment => assign left (.ofTree right)
      | .alternatives | .arithmetic _ | .modulo | .comparison _ | .literal
      | .identifier =>
          .evaluation (.ofTree (.node tag left right))

end Stmt

end Coprocessor
