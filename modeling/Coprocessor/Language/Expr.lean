import Coprocessor.Tree.Basic
import Coprocessor.Tree.Kind

namespace Coprocessor

/-!
# Expressions

What a tree means where a value is wanted. Every tree has a meaning there: an
absent tree and a statement both count as zero, and what stands below a literal
or a variable is ignored.
-/

/-- An expression; a variable is named as it is written. -/
inductive Expr where
  | absent
  | misplaced
  | literal (lexeme : String)
  | variable (name : String)
  | arithmetic (operation : Arithmetic) (left right : Expr)
  | modulo (left right : Expr)
  | comparison (relation : Relation) (left right : Expr)
  deriving Repr, DecidableEq

namespace Expr

/-- The expression that a tree of tags stands for. -/
def ofTree : Tree String → Expr
  | .absent => .absent
  | .node tag left right =>
      match Kind.ofTag tag with
      | .literal => .literal tag
      | .identifier => .variable tag
      | .arithmetic operation =>
          .arithmetic operation (ofTree left) (ofTree right)
      | .modulo => .modulo (ofTree left) (ofTree right)
      | .comparison relation =>
          .comparison relation (ofTree left) (ofTree right)
      | .sequence | .conditional | .loop | .assignment | .alternatives =>
          .misplaced

end Expr

end Coprocessor
