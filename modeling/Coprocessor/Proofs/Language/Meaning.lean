import Coprocessor.Language.Stmt
import Coprocessor.Symbol.Basic
import Coprocessor.Proofs.Decimal.Value

namespace Coprocessor

/-!
# What trees mean

The value of a tree where a value is wanted, and what a tree does to the cells
of the variables where a statement is wanted. A loop that does not come to its
end relates no cells at all. How numbers are combined is left to a parameter;
with exact rational numbers it is fixed except for the quotient by zero. The
meaning of expressions and statements is that of the trees they come from.
-/

/-- How values are made and combined, and which of them count as true. -/
structure Meaning (Value : Type) where
  ofRat : ℚ → Value
  arithmetic : Arithmetic → Value → Value → Value
  modulo : Value → Value → Value
  comparison : Relation → Value → Value → Value
  IsTrue : Value → Prop

/--
An arithmetic operation on rational numbers, with a given quotient by zero.
-/
def Arithmetic.exact
    (byZero : ℚ) :
    Arithmetic → ℚ → ℚ → ℚ
  | .add, left, right => left + right
  | .subtract, left, right => left - right
  | .multiply, left, right => left * right
  | .divide, left, right => if right = 0 then byZero else left / right

/-- Whether a relation holds between rational numbers. -/
def Relation.holds
    (left right : ℚ) :
    Relation → Bool
  | .equal => left = right
  | .notEqual => left ≠ right
  | .less => left < right
  | .greater => left > right
  | .lessOrEqual => left ≤ right
  | .greaterOrEqual => left ≥ right

/--
Exact arithmetic; a modulo takes the greatest whole multiple away, a
comparison is one or zero.
-/
def Meaning.exact (byZero : ℚ) : Meaning ℚ where
  ofRat := id
  arithmetic := Arithmetic.exact byZero
  modulo left right :=
    left - ⌊Arithmetic.exact byZero .divide left right⌋ * right
  comparison relation left right := if relation.holds left right then 1 else 0
  IsTrue value := value ≠ 0

/--
The value of a literal: that of its numeral, without the blanks around it.
-/
def literalValue (lexeme : String) : ℚ :=
  Decimal.textValue (Text.trimChars lexeme.toList)

/--
The branch of the body of a conditional that is taken if the condition is true.
-/
def Tree.onTrue : Tree String → Tree String
  | .absent => .absent
  | .node tag left right =>
      if Kind.ofTag tag = .alternatives then left else .node tag left right

/--
The branch of the body of a conditional that is taken if the
condition is not true.
-/
def Tree.onFalse : Tree String → Tree String
  | .absent => .absent
  | .node tag _ right =>
      if Kind.ofTag tag = .alternatives then right else .absent

/--
The name of the cell that an assignment to a tree writes, if it writes one.
-/
def Tree.targetCell? : Tree String → Option String
  | .absent => none
  | .node tag _ _ =>
      if Kind.ofTag tag = .identifier then
        some (Symbol.storedName tag)
      else
        none

section Values

variable
    {Value : Type}
    (meaning : Meaning Value)

/--
The value of a tree, where the cells of the variables hold the given values.
-/
def Tree.value
    (cells : String → Value) :
    Tree String → Value
  | .absent => meaning.ofRat 0
  | .node tag left right =>
      match Kind.ofTag tag with
      | .literal => meaning.ofRat (literalValue tag)
      | .identifier => cells (Symbol.storedName tag)
      | .arithmetic operation =>
          meaning.arithmetic operation (left.value cells) (right.value cells)
      | .modulo => meaning.modulo (left.value cells) (right.value cells)
      | .comparison relation =>
          meaning.comparison relation (left.value cells) (right.value cells)
      | .sequence | .conditional | .loop | .assignment | .alternatives =>
          meaning.ofRat 0

/--
What a tree does as a statement: it runs from some contents of the
cells to others.
-/
inductive Tree.Runs :
    Tree String → (String → Value) → (String → Value) → Prop where
  | absent (cells : String → Value) :
      Tree.Runs .absent cells cells
  | sequence
      {tag : String}
      {left right : Tree String}
      {before middle after : String → Value} :
      Kind.ofTag tag = .sequence →
      Tree.Runs left before middle →
      Tree.Runs right middle after →
      Tree.Runs (.node tag left right) before after
  | conditionalTrue
      {tag : String}
      {condition body : Tree String}
      {before after : String → Value} :
      Kind.ofTag tag = .conditional →
      meaning.IsTrue (condition.value meaning before) →
      Tree.Runs body.onTrue before after →
      Tree.Runs (.node tag condition body) before after
  | conditionalFalse
      {tag : String}
      {condition body : Tree String}
      {before after : String → Value} :
      Kind.ofTag tag = .conditional →
      ¬ meaning.IsTrue (condition.value meaning before) →
      Tree.Runs body.onFalse before after →
      Tree.Runs (.node tag condition body) before after
  | loopEnd
      {tag : String}
      {condition body : Tree String}
      {cells : String → Value} :
      Kind.ofTag tag = .loop →
      ¬ meaning.IsTrue (condition.value meaning cells) →
      Tree.Runs (.node tag condition body) cells cells
  | loopPass
      {tag : String}
      {condition body : Tree String}
      {before middle after : String → Value} :
      Kind.ofTag tag = .loop →
      meaning.IsTrue (condition.value meaning before) →
      Tree.Runs body before middle →
      Tree.Runs (.node tag condition body) middle after →
      Tree.Runs (.node tag condition body) before after
  | assignment
      {tag name : String}
      {target value : Tree String}
      {cells : String → Value} :
      Kind.ofTag tag = .assignment →
      target.targetCell? = some name →
      Tree.Runs (.node tag target value) cells
        (Function.update cells name (value.value meaning cells))
  | lostAssignment
      {tag : String}
      {target value : Tree String}
      {cells : String → Value} :
      Kind.ofTag tag = .assignment →
      target.targetCell? = none →
      Tree.Runs (.node tag target value) cells cells
  | other
      {tag : String}
      {left right : Tree String}
      {cells : String → Value} :
      Kind.ofTag tag ∉ [.sequence, .conditional, .loop, .assignment] →
      Tree.Runs (.node tag left right) cells cells

/-- The value of an expression. -/
def Expr.value
    (cells : String → Value) :
    Expr → Value
  | .absent | .misplaced => meaning.ofRat 0
  | .literal lexeme => meaning.ofRat (literalValue lexeme)
  | .variable name => cells (Symbol.storedName name)
  | .arithmetic operation left right =>
      meaning.arithmetic operation (left.value cells) (right.value cells)
  | .modulo left right => meaning.modulo (left.value cells) (right.value cells)
  | .comparison relation left right =>
      meaning.comparison relation (left.value cells) (right.value cells)

/-- What a statement does to the cells of the variables. -/
inductive Stmt.Runs : Stmt → (String → Value) → (String → Value) → Prop where
  | skip (cells : String → Value) :
      Stmt.Runs .skip cells cells
  | sequence
      {first second : Stmt}
      {before middle after : String → Value} :
      Stmt.Runs first before middle →
      Stmt.Runs second middle after →
      Stmt.Runs (.sequence first second) before after
  | conditionalTrue
      {condition : Expr}
      {body : Stmt}
      {before after : String → Value} :
      meaning.IsTrue (condition.value meaning before) →
      Stmt.Runs body before after →
      Stmt.Runs (.conditional condition body) before after
  | conditionalFalse
      {condition : Expr}
      {body : Stmt}
      {cells : String → Value} :
      ¬ meaning.IsTrue (condition.value meaning cells) →
      Stmt.Runs (.conditional condition body) cells cells
  | choiceTrue
      {condition : Expr}
      {onTrue onFalse : Stmt}
      {before after : String → Value} :
      meaning.IsTrue (condition.value meaning before) →
      Stmt.Runs onTrue before after →
      Stmt.Runs (.choice condition onTrue onFalse) before after
  | choiceFalse
      {condition : Expr}
      {onTrue onFalse : Stmt}
      {before after : String → Value} :
      ¬ meaning.IsTrue (condition.value meaning before) →
      Stmt.Runs onFalse before after →
      Stmt.Runs (.choice condition onTrue onFalse) before after
  | loopEnd
      {condition : Expr}
      {body : Stmt}
      {cells : String → Value} :
      ¬ meaning.IsTrue (condition.value meaning cells) →
      Stmt.Runs (.loop condition body) cells cells
  | loopPass
      {condition : Expr}
      {body : Stmt}
      {before middle after : String → Value} :
      meaning.IsTrue (condition.value meaning before) →
      Stmt.Runs body before middle →
      Stmt.Runs (.loop condition body) middle after →
      Stmt.Runs (.loop condition body) before after
  | assignment
      {target : String}
      {value : Expr}
      {cells : String → Value} :
      Stmt.Runs (.assignment target value) cells
        (Function.update cells (Symbol.storedName target)
          (value.value meaning cells))
  | evaluation
      {value : Expr}
      {cells : String → Value} :
      Stmt.Runs (.evaluation value) cells cells

variable
    {meaning}

@[simp] theorem Expr.value_ofTree
    (cells : String → Value)
    (tree : Tree String) :
    (ofTree tree).value meaning cells = tree.value meaning cells := by
  induction tree with
  | absent =>
      rfl
  | node tag left right leftValue rightValue =>
      simp only [ofTree, Tree.value]
      cases Kind.ofTag tag <;> simp [value, leftValue, rightValue]

theorem Stmt.runs_choice
    {condition : Expr}
    {onTrue onFalse : Stmt}
    {before after : String → Value} :
    Stmt.Runs meaning (.choice condition onTrue onFalse) before after ↔
      meaning.IsTrue (condition.value meaning before) ∧
        Stmt.Runs meaning onTrue before after ∨
        ¬ meaning.IsTrue (condition.value meaning before) ∧
          Stmt.Runs meaning onFalse before after := by
  constructor
  · intro runs
    cases runs with
    | choiceTrue holds branch =>
        exact .inl ⟨holds, branch⟩
    | choiceFalse fails branch =>
        exact .inr ⟨fails, branch⟩
  · rintro (⟨holds, branch⟩ | ⟨fails, branch⟩)
    · exact .choiceTrue holds branch
    · exact .choiceFalse fails branch

/-- A conditional is a choice of its body or nothing. -/
theorem Stmt.runs_conditional_iff_choice
    {condition : Expr}
    {body : Stmt}
    {before after : String → Value} :
    Stmt.Runs meaning (.conditional condition body) before after ↔
      Stmt.Runs meaning (.choice condition body .skip) before after := by
  constructor
  · intro runs
    cases runs with
    | conditionalTrue holds branch =>
        exact .choiceTrue holds branch
    | conditionalFalse fails =>
        exact .choiceFalse fails (.skip _)
  · intro runs
    cases runs with
    | choiceTrue holds branch =>
        exact .conditionalTrue holds branch
    | choiceFalse fails branch =>
        cases branch
        exact .conditionalFalse fails

/--
The statement of a conditional tree runs the branch that its condition selects.
-/
theorem Stmt.runs_conditional
    {tag : String}
    {condition body : Tree String}
    {before after : String → Value}
    (isConditional : Kind.ofTag tag = .conditional) :
    Stmt.Runs meaning (ofTree (.node tag condition body)) before after ↔
      meaning.IsTrue (condition.value meaning before) ∧
          Stmt.Runs meaning (ofTree body.onTrue) before after ∨
        ¬ meaning.IsTrue (condition.value meaning before) ∧
          Stmt.Runs meaning (ofTree body.onFalse) before after := by
  have nothing : ofTree .absent = .skip := by
    rw [ofTree]
  rw [← Expr.value_ofTree]
  cases body with
  | absent =>
      simp only [ofTree, isConditional, Tree.onTrue, Tree.onFalse]
      rw [runs_conditional_iff_choice, runs_choice]
  | node inner left right =>
      rw [ofTree]
      by_cases hasTwo : Kind.ofTag inner = .alternatives
      · simp only [isConditional, hasTwo, ↓reduceIte, Tree.onTrue, Tree.onFalse]
        exact runs_choice
      · simp only [isConditional, hasTwo, ↓reduceIte, Tree.onTrue, Tree.onFalse]
        rw [runs_conditional_iff_choice, runs_choice, nothing]

/-- An assignment writes the cell of its target, or nothing. -/
theorem Stmt.runs_assign
    {target : Tree String}
    {value : Expr}
    {before after : String → Value} :
    Stmt.Runs meaning (assign target value) before after ↔
      (∃ name, target.targetCell? = some name ∧
          after = Function.update before name (value.value meaning before)) ∨
        target.targetCell? = none ∧ after = before := by
  cases target with
  | absent =>
      rw [assign, Tree.targetCell?]
      constructor
      · intro runs
        cases runs
        exact .inr ⟨rfl, rfl⟩
      · rintro (⟨name, isTarget, -⟩ | ⟨-, rfl⟩)
        · cases isTarget
        · exact .skip _
  | node tag left right =>
      by_cases isVariable : Kind.ofTag tag = .identifier
      · simp only [assign, Tree.targetCell?, isVariable, ↓reduceIte]
        constructor
        · intro runs
          cases runs
          exact .inl ⟨_, rfl, rfl⟩
        · rintro (⟨name, isTarget, rfl⟩ | ⟨lost, -⟩)
          · obtain rfl := Option.some.inj isTarget
            exact .assignment
          · cases lost
      · rw [assign, Tree.targetCell?, if_neg isVariable, if_neg isVariable]
        constructor
        · intro runs
          cases runs
          exact .inr ⟨rfl, rfl⟩
        · rintro (⟨name, isTarget, -⟩ | ⟨-, rfl⟩)
          · cases isTarget
          · exact .skip _

section Kinds

variable
    {tag : String}
    {left right : Tree String}

theorem Stmt.ofTree_sequence (isSequence : Kind.ofTag tag = .sequence) :
    ofTree (.node tag left right) = .sequence (ofTree left) (ofTree right) := by
  rw [ofTree.eq_def]
  simp only [isSequence]

theorem Stmt.ofTree_loop (isLoop : Kind.ofTag tag = .loop) :
    ofTree (.node tag left right) = .loop (.ofTree left) (ofTree right) := by
  rw [ofTree.eq_def]
  simp only [isLoop]

theorem Stmt.ofTree_assignment (isAssignment : Kind.ofTag tag = .assignment) :
    ofTree (.node tag left right) = assign left (.ofTree right) := by
  rw [ofTree.eq_def]
  simp only [isAssignment]

theorem Stmt.ofTree_other
    (different :
      Kind.ofTag tag ∉ [.sequence, .conditional, .loop, .assignment]) :
    ofTree (.node tag left right) =
      .evaluation (.ofTree (.node tag left right)) := by
  rw [ofTree.eq_def]
  cases kind : Kind.ofTag tag <;> simp_all

end Kinds

theorem Stmt.runs_of_tree
    {tree : Tree String}
    {before after : String → Value}
    (runs : Tree.Runs meaning tree before after) :
    Stmt.Runs meaning (ofTree tree) before after := by
  induction runs with
  | absent cells =>
      rw [ofTree]
      exact .skip cells
  | sequence isSequence _ _ first second =>
      rw [ofTree_sequence isSequence]
      exact .sequence first second
  | conditionalTrue isConditional holds _ branch =>
      exact (runs_conditional isConditional).mpr (.inl ⟨holds, branch⟩)
  | conditionalFalse isConditional fails _ branch =>
      exact (runs_conditional isConditional).mpr (.inr ⟨fails, branch⟩)
  | loopEnd isLoop fails =>
      rw [ofTree_loop isLoop]
      exact .loopEnd (by rwa [Expr.value_ofTree])
  | loopPass isLoop holds _ _ body rest =>
      rw [ofTree_loop isLoop] at rest ⊢
      exact .loopPass (by rwa [Expr.value_ofTree]) body rest
  | assignment isAssignment isTarget =>
      rw [ofTree_assignment isAssignment]
      rw [runs_assign, Expr.value_ofTree]
      exact .inl ⟨_, isTarget, rfl⟩
  | lostAssignment isAssignment lost =>
      rw [ofTree_assignment isAssignment]
      exact runs_assign.mpr (.inr ⟨lost, rfl⟩)
  | other different =>
      rw [ofTree_other different]
      exact .evaluation

/-- The loop of a tree runs if the loop of its condition and its body does. -/
theorem Tree.runs_of_loop
    {tag : String}
    {condition body : Tree String}
    {loop : Stmt}
    {before after : String → Value}
    (isLoop : Kind.ofTag tag = .loop)
    (bodyRuns :
      ∀ {first last : String → Value},
        Stmt.Runs meaning (.ofTree body) first last →
          Tree.Runs meaning body first last)
    (shape : loop = .loop (.ofTree condition) (.ofTree body))
    (runs : Stmt.Runs meaning loop before after) :
    Tree.Runs meaning (.node tag condition body) before after := by
  induction runs with
  | loopEnd fails =>
      cases shape
      rw [Expr.value_ofTree] at fails
      exact .loopEnd isLoop fails
  | loopPass holds body _ _ rest =>
      cases shape
      rw [Expr.value_ofTree] at holds
      exact .loopPass isLoop holds (bodyRuns body) (rest rfl)
  | _ =>
      cases shape

theorem Tree.runs_of_stmt
    {tree : Tree String}
    {before after : String → Value}
    (runs : Stmt.Runs meaning (.ofTree tree) before after) :
    Tree.Runs meaning tree before after := by
  fun_induction Stmt.ofTree tree generalizing before after with
  | case1 =>
      cases runs
      exact .absent _
  | case2 tag left right isSequence first second =>
      cases runs with
      | sequence before after =>
          exact .sequence isSequence (first before) (second after)
  | case3 tag condition isConditional =>
      cases runs with
      | conditionalTrue holds body =>
          rw [Expr.value_ofTree] at holds
          cases body
          exact .conditionalTrue isConditional holds (.absent _)
      | conditionalFalse fails =>
          rw [Expr.value_ofTree] at fails
          exact .conditionalFalse isConditional fails (.absent _)
  | case4 tag condition isConditional inner onTrue onFalse hasTwo first
      second =>
      cases runs with
      | choiceTrue holds branch =>
          rw [Expr.value_ofTree] at holds
          refine .conditionalTrue isConditional holds ?_
          rw [Tree.onTrue, if_pos hasTwo]
          exact first branch
      | choiceFalse fails branch =>
          rw [Expr.value_ofTree] at fails
          refine .conditionalFalse isConditional fails ?_
          rw [Tree.onFalse, if_pos hasTwo]
          exact second branch
  | case5 tag condition isConditional inner left right hasOne body =>
      cases runs with
      | conditionalTrue holds branch =>
          rw [Expr.value_ofTree] at holds
          refine .conditionalTrue isConditional holds ?_
          rw [Tree.onTrue, if_neg hasOne]
          exact body branch
      | conditionalFalse fails =>
          rw [Expr.value_ofTree] at fails
          refine .conditionalFalse isConditional fails ?_
          rw [Tree.onFalse, if_neg hasOne]
          exact .absent _
  | case6 tag condition body isLoop inductionHypothesis =>
      exact Tree.runs_of_loop isLoop inductionHypothesis rfl runs
  | case7 tag target value isAssignment =>
      rw [Stmt.runs_assign, Expr.value_ofTree] at runs
      rcases runs with ⟨name, isTarget, rfl⟩ | ⟨lost, rfl⟩
      · exact .assignment isAssignment isTarget
      · exact .lostAssignment isAssignment lost
  | case8 tag left right kind
  | case9 tag left right operation kind
  | case10 tag left right kind
  | case11 tag left right relation kind
  | case12 tag left right kind
  | case13 tag left right kind =>
      cases runs
      exact .other (by simp [kind])

/-- The statement of a tree does what the tree does. -/
theorem Stmt.runs_ofTree
    {tree : Tree String}
    {before after : String → Value} :
    Stmt.Runs meaning (ofTree tree) before after ↔
      Tree.Runs meaning tree before after :=
  ⟨Tree.runs_of_stmt, runs_of_tree⟩

end Values

end Coprocessor
