import Coprocessor.Proofs.Assembly.Cells
import Coprocessor.Proofs.Compile.Labels

namespace Coprocessor

open Assembly

/-!
# Allotment of cells

The compiler hands on how many cells and slots it has numbered. A fragment
declares exactly the numbers between the counters in front of it and behind it,
and its code fills the temporaries and slots in the order of their declarations.
So no cell is filled twice, and the declared names carry consecutive numbers.
-/

/-- The numbers from one counter, exclusive, to another, inclusive. -/
def Consecutive
    (before after : Nat)
    (numbers : List Nat) :
    Prop :=
  before ≤ after ∧ numbers = List.range' (before + 1) (after - before)

theorem Consecutive.range
    (before count : Nat) :
    Consecutive before (before + count) (List.range' (before + 1) count) :=
  ⟨Nat.le_add_right _ _, by rw [Nat.add_sub_cancel_left]⟩

theorem Consecutive.append
    {before middle after : Nat}
    {first second : List Nat}
    (firstRun : Consecutive before middle first)
    (secondRun : Consecutive middle after second) :
    Consecutive before after (first ++ second) := by
  obtain ⟨firstBound, rfl⟩ := firstRun
  obtain ⟨secondBound, rfl⟩ := secondRun
  refine ⟨firstBound.trans secondBound, ?_⟩
  have joined :
      List.range' (before + 1) (middle - before) ++
          List.range' (before + 1 + 1 * (middle - before)) (after - middle) =
        List.range' (before + 1) (middle - before + (after - middle)) :=
    List.range'_append
  rw [show before + 1 + 1 * (middle - before) = middle + 1 by omega,
    show middle - before + (after - middle) = after - before by omega] at joined
  exact joined

namespace Assembly

/-- The number of a temporary or a literal, which share one counter. -/
def Cell.number? : Cell → Option Nat
  | .temporary number | .literal number => some number
  | _ => none

/-- The number of a slot. -/
def Cell.slotNumber? : Cell → Option Nat
  | .slot number => some number
  | _ => none

/-- The cell itself if it is filled by the code. -/
def Cell.filled? : Cell → Option Cell
  | .temporary number => some (.temporary number)
  | .slot number => some (.slot number)
  | _ => none

theorem Cell.filled?_eq_self
    {cell : Cell}
    (isFilled : cell.IsFilled) :
    cell.filled? = some cell := by
  cases cell with
  | temporary number | slot number =>
      rfl
  | _ =>
      exact isFilled.elim

/-- What the code fills has a number. -/
theorem Cell.numbered_of_filled?
    {first cell : Cell}
    (isFilled : first.filled? = some cell) :
    first = cell ∧
      ∃ number, cell.number? = some number ∨
        cell.slotNumber? = some number := by
  cases first with
  | temporary number =>
      obtain rfl := Option.some.inj isFilled
      exact ⟨rfl, number, .inl rfl⟩
  | slot number =>
      obtain rfl := Option.some.inj isFilled
      exact ⟨rfl, number, .inr rfl⟩
  | _ =>
      cases isFilled

end Assembly

namespace Compile

/--
What a fragment declares and fills: the numbers between two counters, and its
temporaries and slots in the order of their declarations.
-/
structure Allotted
    (before after : Counters)
    (data : List Declaration)
    (code : List Line) :
    Prop where
  cells :
    Consecutive before.cells after.cells (data.filterMap (·.cell.number?))
  slots :
    Consecutive before.slots after.slots (data.filterMap (·.cell.slotNumber?))
  numbered :
    ∀ declaration ∈ data,
      declaration.cell.number?.isSome ∨ declaration.cell.slotNumber?.isSome
  filled :
    code.filterMap Line.filled? = data.filterMap (·.cell.filled?)

namespace Allotted

theorem nil (counters : Counters) : Allotted counters counters [] [] where
  cells := .range _ 0
  slots := .range _ 0
  numbered := by simp
  filled := rfl

theorem append
    {before middle after : Counters}
    {firstData secondData : List Declaration}
    {firstCode secondCode : List Line}
    (first : Allotted before middle firstData firstCode)
    (second : Allotted middle after secondData secondCode) :
    Allotted before after (firstData ++ secondData)
      (firstCode ++ secondCode) where
  cells := by
    rw [List.filterMap_append]
    exact first.cells.append second.cells
  slots := by
    rw [List.filterMap_append]
    exact first.slots.append second.slots
  numbered :=
    List.forall_mem_append.mpr ⟨first.numbered, second.numbered⟩
  filled := by
    rw [List.filterMap_append, List.filterMap_append, first.filled,
      second.filled]

/-- Lines that fill nothing may stand in front. -/
theorem behind
    {before after : Counters}
    {data : List Declaration}
    {code : List Line}
    (allotted : Allotted before after data code)
    {front : List Line}
    (idle : front.filterMap Line.filled? = []) :
    Allotted before after data (front ++ code) :=
  { allotted with
    filled := by
      rw [List.filterMap_append, idle, List.nil_append, allotted.filled] }

/-- Lines that fill nothing may follow. -/
theorem followed
    {before after : Counters}
    {data : List Declaration}
    {code : List Line}
    (allotted : Allotted before after data code)
    {back : List Line}
    (idle : back.filterMap Line.filled? = []) :
    Allotted before after data (code ++ back) :=
  { allotted with
    filled := by
      rw [List.filterMap_append, idle, List.append_nil, allotted.filled] }

/-- Labels are counted on their own. -/
theorem addLabel
    {before after : Counters}
    {data : List Declaration}
    {code : List Line}
    (allotted : Allotted before.addLabel after data code) :
    Allotted before after data code :=
  { allotted with }

end Allotted

theorem allotted_arithmeticCode
    (operation : Arithmetic)
    (left right : Cell)
    (counters : Counters) :
    Allotted counters (counters.addCells 1)
      [declareTemporary (counters.cells + 1)]
      (arithmeticCode operation left right
        (.temporary (counters.cells + 1))) where
  cells := .range _ 1
  slots := .range _ 0
  numbered := by simp [declareTemporary, Cell.number?]
  filled := rfl

theorem allotted_moduloCode
    (rounding : QuotientRounding)
    (left right : Cell)
    (counters : Counters) :
    Allotted counters (counters.addCells 4).addSlot
      [declareTemporary (counters.cells + 1), declareSlot (counters.slots + 1),
        declareTemporary (counters.cells + 2),
        declareTemporary (counters.cells + 3),
        declareTemporary (counters.cells + 4)]
      (moduloCode rounding left right (.temporary (counters.cells + 1))
        (.slot (counters.slots + 1)) (.temporary (counters.cells + 2))
        (.temporary (counters.cells + 3))
        (.temporary (counters.cells + 4))) where
  cells := .range _ 4
  slots := .range _ 1
  numbered := by
    simp [declareTemporary, declareSlot, Cell.number?, Cell.slotNumber?]
  filled := by cases rounding <;> rfl

theorem allotted_comparisonCode
    (mode : ComparisonResult)
    (relation : Relation)
    (left right : Cell)
    (counters : Counters)
    (number : Nat) :
    Allotted counters (counters.addCells 1).addLabel
      [declareTemporary (counters.cells + 1)]
      (comparisonCode mode relation left right (.temporary (counters.cells + 1))
        number) where
  cells := .range _ 1
  slots := .range _ 0
  numbered := by simp [declareTemporary, Cell.number?]
  filled := by cases mode <;> rfl

theorem allotted_zeroOperand
    (reason : String)
    (counters : Counters) :
    Allotted counters (zeroOperand reason counters).next
      (zeroOperand reason counters).data
      (zeroOperand reason counters).code where
  cells := .range _ 1
  slots := .range _ 0
  numbered := by simp [zeroOperand, declareTemporary, Cell.number?]
  filled := rfl

theorem allotted_literalOperand
    (form : LiteralForm)
    (lexeme : String)
    (counters : Counters) :
    Allotted counters (literalOperand form lexeme counters).next
      (literalOperand form lexeme counters).data
      (literalOperand form lexeme counters).code where
  cells := .range _ 2
  slots := .range _ 0
  numbered := by
    simp [literalOperand, declareTemporary, declareLiteral, Cell.number?]
  filled := rfl

theorem allotted_variableOperand
    (name : String)
    (counters : Counters) :
    Allotted counters (variableOperand name counters).next
      (variableOperand name counters).data
      (variableOperand name counters).code where
  cells := .range _ 1
  slots := .range _ 0
  numbered := by simp [variableOperand, declareTemporary, Cell.number?]
  filled := rfl

/-- An expression declares and fills what the counters say. -/
theorem allotted_expression
    (options : Options)
    (value : Expr)
    (counters : Counters) :
    Allotted counters (expression options value counters).next
      (expression options value counters).data
      (expression options value counters).code := by
  induction value generalizing counters with
  | absent =>
      exact allotted_zeroOperand _ counters
  | misplaced =>
      exact allotted_zeroOperand _ counters
  | literal lexeme =>
      exact allotted_literalOperand options.literals lexeme counters
  | «variable» name =>
      exact allotted_variableOperand name counters
  | arithmetic operation left right leftAllotted rightAllotted =>
      exact ((leftAllotted _).append (rightAllotted _)).append
        (allotted_arithmeticCode operation _ _ _)
  | modulo left right leftAllotted rightAllotted =>
      exact (((leftAllotted _).behind rfl).append (rightAllotted _)).append
        (allotted_moduloCode options.modulo _ _ _)
  | comparison relation left right leftAllotted rightAllotted =>
      exact ((leftAllotted _).append (rightAllotted _)).append
        (allotted_comparisonCode options.comparison relation _ _ _ _)

/-- A statement declares and fills what the counters say. -/
theorem allotted_statement
    (options : Options)
    (body : Stmt)
    (counters : Counters) :
    Allotted counters (statement options body counters).next
      (statement options body counters).data
      (statement options body counters).code := by
  have inExpression := allotted_expression options
  induction body generalizing counters with
  | skip =>
      exact .nil counters
  | sequence first second firstAllotted secondAllotted =>
      exact (firstAllotted _).append (secondAllotted _)
  | conditional condition body bodyAllotted =>
      exact (((inExpression condition counters).followed rfl).append
        (bodyAllotted _).addLabel).followed rfl
  | choice condition onTrue onFalse trueAllotted falseAllotted =>
      exact ((((inExpression condition counters).followed rfl).append
        (trueAllotted _).addLabel).followed rfl).append (falseAllotted _)
          |>.followed rfl
  | loop condition body bodyAllotted =>
      exact ((((inExpression condition counters.addLabel).addLabel.behind
        rfl).followed rfl).append (bodyAllotted _)).followed rfl
  | assignment target value =>
      exact ((inExpression value counters).behind rfl).followed rfl
  | evaluation value =>
      exact inExpression value counters

namespace Allotted

variable
    {before after : Counters}
    {data : List Declaration}
    {code : List Line}
    (allotted : Allotted before after data code)

include allotted

theorem generated
    {declaration : Declaration}
    (member : declaration ∈ data) :
    declaration.cell.IsGenerated := by
  have numbered := allotted.numbered declaration member
  cases cell : declaration.cell <;>
    simp_all [Cell.number?, Cell.slotNumber?, Cell.IsGenerated]

/-- The names of temporaries and literals carry the numbers of their cells. -/
theorem forall₂_names :
    List.Forall₂
      (fun name number =>
        name = (Cell.temporary number).name ∨ name = (Cell.literal number).name)
      ((data.map (·.cell.name)).filter fun name =>
        isNamed "@tmp" name || isNamed "@lit" name)
      (data.filterMap (·.cell.number?)) := by
  have numbered := allotted.numbered
  clear allotted
  induction data with
  | nil =>
      exact .nil
  | cons declaration rest inductionHypothesis =>
      obtain ⟨headNumbered, restNumbered⟩ := List.forall_mem_cons.mp numbered
      have tail := inductionHypothesis restNumbered
      rcases declaration with ⟨cell, storage⟩
      cases cell with
      | temporary number =>
          rw [List.map_cons,
            List.filter_cons_of_pos (by simp [Cell.name, isNamed_append])]
          exact .cons (.inl rfl) tail
      | literal number =>
          rw [List.map_cons,
            List.filter_cons_of_pos (by simp [Cell.name, isNamed_append])]
          exact .cons (.inr rfl) tail
      | slot number =>
          rw [List.map_cons, List.filter_cons_of_neg
            (by simp [Cell.name, isNamed, String.toList_append,
              List.isPrefixOf])]
          exact tail
      | «variable» | savedControl | floorControl | scratch =>
          simp [Cell.number?, Cell.slotNumber?] at headNumbered

/-- The names of slots carry the numbers of their cells. -/
theorem slot_names :
    (data.map (·.cell.name)).filter (isNamed "@intSlot") =
      (data.filterMap (·.cell.slotNumber?)).map fun number =>
        (Cell.slot number).name := by
  have numbered := allotted.numbered
  clear allotted
  induction data with
  | nil =>
      rfl
  | cons declaration rest inductionHypothesis =>
      obtain ⟨headNumbered, restNumbered⟩ := List.forall_mem_cons.mp numbered
      have tail := inductionHypothesis restNumbered
      rcases declaration with ⟨cell, storage⟩
      cases cell with
      | temporary number | literal number =>
          rw [List.map_cons, List.filter_cons_of_neg
            (by simp [Cell.name, isNamed, String.toList_append,
              List.isPrefixOf])]
          exact tail
      | slot number =>
          rw [List.map_cons,
            List.filter_cons_of_pos (by simp [Cell.name, isNamed_append])]
          exact congrArg _ tail
      | «variable» | savedControl | floorControl | scratch =>
          simp [Cell.number?, Cell.slotNumber?] at headNumbered

/-- No temporary and no slot is filled twice. -/
theorem nodup_filled : (code.filterMap Line.filled?).Nodup := by
  have cellsDiffer : (data.filterMap (·.cell.number?)).Nodup := by
    rw [allotted.cells.2]
    exact List.nodup_range' 1
  have slotsDiffer : (data.filterMap (·.cell.slotNumber?)).Nodup := by
    rw [allotted.slots.2]
    exact List.nodup_range' 1
  rw [allotted.filled]
  rw [List.Nodup, List.pairwise_filterMap] at cellsDiffer slotsDiffer ⊢
  refine (cellsDiffer.and slotsDiffer).imp ?_
  rintro first second ⟨differentCells, differentSlots⟩ cell isFirst _
    isSecond rfl
  obtain ⟨secondCell, -⟩ := Cell.numbered_of_filled? isSecond
  obtain ⟨firstCell, number, isCell | isSlot⟩ :=
    Cell.numbered_of_filled? isFirst
  · exact differentCells number (firstCell ▸ isCell) number
      (secondCell ▸ isCell) rfl
  · exact differentSlots number (firstCell ▸ isSlot) number
      (secondCell ▸ isSlot) rfl

/-- A declared temporary or slot is filled by one line. -/
theorem countP_filled
    {cell : Cell}
    (member : ∃ declaration ∈ data, declaration.cell = cell)
    (isFilled : cell.filled? = some cell) :
    code.countP (fun line => line.filled? == some cell) = 1 := by
  rw [← List.count_filterMap]
  refine List.count_eq_one_of_mem allotted.nodup_filled ?_
  obtain ⟨declaration, isDeclared, sameCell⟩ := member
  rw [allotted.filled]
  exact List.mem_filterMap.mpr
    ⟨declaration, isDeclared, by rw [sameCell, isFilled]⟩

end Allotted

end Compile

end Coprocessor
