import Coprocessor.Proofs.Compile.Cells
import Coprocessor.Proofs.Symbol.History

namespace Coprocessor

open Assembly

/-!
# Operands in memory

An instruction that takes a cell of memory names it between brackets. The code
of a fragment names three sorts of cells: those that the fragment declares
itself, the variables of its source, and the two cells for the control word
where its change is wanted. All of them are declared in the data section as soon
as the variables are.
-/

namespace Assembly

/--
What stands between the first opening bracket of a text and the
last closing one.
-/
def bracketed? (text : List Char) : Option (List Char) :=
  match text.dropWhile (· != '[') with
  | [] => none
  | _ :: inner =>
      match inner.reverse.dropWhile (· != ']') with
      | [] => none
      | _ :: reversed => some reversed.reverse

/-- Nothing is bracketed where no bracket opens. -/
theorem bracketed?_eq_none
    {text : List Char}
    (unopened : '[' ∉ text) :
    bracketed? text = none := by
  have dropped : text.dropWhile (· != '[') = [] := by
    rw [List.dropWhile_eq_nil_iff]
    intro character member
    exact bne_iff_ne.mpr (ne_of_mem_of_not_mem member unopened)
  rw [bracketed?, dropped]

/--
The name of a cell is found between its brackets, whatever brackets
it holds itself.
-/
theorem bracketed?_operand
    {before after : List Char}
    (unopened : '[' ∉ before)
    (unclosed : ']' ∉ after)
    (cell : Cell) :
    bracketed? (before ++ cell.operand.toList ++ after) =
      some cell.name.toList := by
  have shape :
      before ++ cell.operand.toList ++ after =
        before ++ '[' :: (cell.name.toList ++ ']' :: after) := by
    simp [Cell.operand, String.toList_append]
  have front :
      (before ++ '[' :: (cell.name.toList ++ ']' :: after)).dropWhile
        (· != '[') =
        '[' :: (cell.name.toList ++ ']' :: after) := by
    rw [List.dropWhile_append_of_pos]
    · rfl
    · intro character member
      exact bne_iff_ne.mpr (ne_of_mem_of_not_mem member unopened)
  have back :
      (cell.name.toList ++ ']' :: after).reverse.dropWhile (· != ']') =
        ']' :: cell.name.toList.reverse := by
    rw [List.reverse_append, List.reverse_cons, List.append_assoc,
      List.dropWhile_append_of_pos]
    · rfl
    · intro character member
      exact bne_iff_ne.mpr
        (ne_of_mem_of_not_mem (List.mem_reverse.mp member) unclosed)
  rw [shape, bracketed?, front]
  simp only [back, List.reverse_reverse]

/-- The name that an instruction puts between brackets in its line. -/
def Line.bracketedName? : Line → Option String
  | .instr code column =>
      (bracketed? (Line.instr code column).render.toList).map String.ofList
  | _ => none

/-- The cell that a line names as an operand. -/
def Line.cell? (line : Line) : Option Cell :=
  line.instr?.bind Instr.cell?

/-- No bracket stands in a mnemonic, a label or a number. -/
theorem not_isWordCharacter_bracket : ¬ isWordCharacter '[' = true := by
  decide

/-- No mnemonic holds a bracket. -/
theorem Instr.not_mem_mnemonic (code : Instr) : '[' ∉ code.mnemonic.toList :=
  fun member =>
    not_isWordCharacter_bracket (isWordCharacter_of_mem_mnemonic member)

/-- No label holds a bracket. -/
theorem Label.not_mem_name (label : Label) : '[' ∉ label.name.toList :=
  fun member => not_isWordCharacter_bracket (isWordCharacter_of_mem_name member)

/-- No number in hexadecimal holds a bracket. -/
theorem not_mem_hexWord (value : BitVec 16) : '[' ∉ (hexWord value).toList :=
  fun member =>
    not_isWordCharacter_bracket (isWordCharacter_of_mem_hexWord member)

/--
An instruction that names a cell writes it as an operand, with no other
bracket around it.
-/
theorem Instr.operands?_of_cell?
    {code : Instr}
    {cell : Cell}
    (names : code.cell? = some cell) :
    ∃ before after,
      code.operands? = some (before ++ cell.operand ++ after) ∧
        '[' ∉ before.toList ∧ ']' ∉ after.toList := by
  cases code with
  | load | loadInteger | store | storeInteger | subtractCell | storeControl
  | loadControl =>
      obtain rfl := Option.some.inj names
      exact ⟨"", "", by simp [operands?], by decide, by decide⟩
  | loadAccumulator source =>
      obtain rfl := Option.some.inj names
      exact ⟨"AX,", "", by simp [operands?], by decide, by decide⟩
  | storeAccumulator target =>
      obtain rfl := Option.some.inj names
      exact ⟨"", ",AX", by simp [operands?], by decide, by decide⟩
  | _ =>
      cases names

/-- An instruction that names no cell writes no bracket. -/
theorem Instr.not_mem_operands
    {code : Instr}
    {operands : String}
    (namesNone : code.cell? = none)
    (written : code.operands? = some operands) :
    '[' ∉ operands.toList := by
  cases code with
  | maskAccumulator mask | raiseAccumulator mask =>
      obtain rfl := Option.some.inj written
      simp [not_mem_hexWord]
  | jump condition target =>
      obtain rfl := Option.some.inj written
      exact target.not_mem_name
  | discard | combine operation | storeStatus =>
      obtain rfl := Option.some.inj written
      decide
  | loadZero | loadOne | test | setFlags =>
      cases written
  | _ =>
      cases namesNone

/-- What an instruction puts between brackets is the name of its cell. -/
theorem Line.bracketedName?_eq (line : Line) :
    line.bracketedName? = line.cell?.map Cell.name := by
  cases line with
  | instr code column =>
      have inFront :
          '[' ∉ ("\t" ++ Text.padRight column code.mnemonic).toList := by
        simp [Text.padRight, code.not_mem_mnemonic]
      cases named : code.cell? with
      | none =>
          have unopened : '[' ∉ (Line.instr code column).render.toList := by
            cases written : code.operands? with
            | none =>
                simpa only [render, written] using inFront
            | some operands =>
                have inOperands := Instr.not_mem_operands named written
                simp_all [render]
          simp [bracketedName?, cell?, instr?, named,
            bracketed?_eq_none unopened]
      | some cell =>
          obtain ⟨before, after, written, unopened, unclosed⟩ :=
            Instr.operands?_of_cell? named
          have shape :
              (Line.instr code column).render.toList =
                ("\t" ++ Text.padRight column code.mnemonic ++ " " ++
                  before).toList ++
                  cell.operand.toList ++ after.toList := by
            simp [render, written]
          have opened :
              '[' ∉
                ("\t" ++ Text.padRight column code.mnemonic ++ " " ++
                  before).toList := by
            simp_all
          rw [bracketedName?, shape, bracketed?_operand opened unclosed]
          simp [cell?, instr?, named]
  | _ =>
      rfl

/-- The cells that lines name as operands. -/
def operandCells (code : List Line) : List Cell :=
  code.filterMap Line.cell?

@[simp] theorem operandCells_append (first second : List Line) :
    operandCells (first ++ second) =
      operandCells first ++ operandCells second :=
  List.filterMap_append

end Assembly

namespace Compile

/--
The cells that a fragment may name: its own, its variables and those
for the control word.
-/
def nameable
    (options : Options)
    (names : List String)
    (data : List Declaration) :
    List Cell :=
  data.map Declaration.cell ++
    (names.map (fun name => Cell.variable (Symbol.storedName name)) ++
      (controlDeclarations options.modulo).map Declaration.cell)

theorem nameable_subset
    {options : Options}
    {fewerNames names : List String}
    {fewerData data : List Declaration}
    (namesSubset : fewerNames ⊆ names)
    (dataSubset : fewerData ⊆ data) :
    nameable options fewerNames fewerData ⊆ nameable options names data := by
  intro cell member
  simp only [nameable, List.mem_append] at member ⊢
  rcases member with declared | named | control
  · exact .inl (List.map_subset _ dataSubset declared)
  · exact .inr (.inl (List.map_subset _ namesSubset named))
  · exact .inr (.inr control)

/--
The code names only what a fragment with these variables and
declarations may name.
-/
def Names
    (options : Options)
    (names : List String)
    (data : List Declaration)
    (code : List Line) :
    Prop :=
  operandCells code ⊆ nameable options names data

namespace Names

section Extend

variable
    {options : Options}
    {names : List String}
    {data : List Declaration}
    {code : List Line}
    (named : Names options names data code)

include named

theorem mono
    {moreNames : List String}
    {moreData : List Declaration}
    (namesSubset : names ⊆ moreNames)
    (dataSubset : data ⊆ moreData) :
    Names options moreNames moreData code :=
  List.Subset.trans named (nameable_subset namesSubset dataSubset)

theorem append
    {otherNames : List String}
    {otherData : List Declaration}
    {otherCode : List Line}
    (other : Names options otherNames otherData otherCode) :
    Names options (names ++ otherNames) (data ++ otherData)
      (code ++ otherCode) := by
  rw [Names, operandCells_append, List.append_subset]
  exact ⟨named.mono (List.subset_append_left _ _) (List.subset_append_left _ _),
    other.mono (List.subset_append_right _ _) (List.subset_append_right _ _)⟩

/-- Lines that name only such cells too may follow. -/
theorem followed
    {back : List Line}
    (backNamed : Names options names data back) :
    Names options names data (code ++ back) := by
  rw [Names, operandCells_append, List.append_subset]
  exact ⟨named, backNamed⟩

/-- Lines that name no cell may stand in front. -/
theorem behind
    {front : List Line}
    (idle : operandCells front = []) :
    Names options names data (front ++ code) := by
  rw [Names, operandCells_append, idle]
  exact named

end Extend

/-- Lines that name no cell name only cells of any sort. -/
theorem of_idle
    {options : Options}
    {names : List String}
    {data : List Declaration}
    {code : List Line}
    (idle : operandCells code = []) :
    Names options names data code := by
  rw [Names, idle]
  exact List.nil_subset _

/-- Lines that name one declared cell. -/
theorem of_declared
    {options : Options}
    {names : List String}
    {data : List Declaration}
    {code : List Line}
    {cell : Cell}
    (declared : cell ∈ data.map Declaration.cell)
    (only : operandCells code = [cell]) :
    Names options names data code := by
  rw [Names, only]
  exact List.cons_subset.mpr
    ⟨List.mem_append_left _ declared, List.nil_subset _⟩

end Names

theorem operandCells_arithmeticCode
    (operation : Arithmetic)
    (left right result : Cell) :
    operandCells (arithmeticCode operation left right result) =
      [right, left, result] :=
  rfl

theorem operandCells_comparisonCode
    (mode : ComparisonResult)
    (relation : Relation)
    (left right result : Cell)
    (number : Nat) :
    operandCells (comparisonCode mode relation left right result number) =
      [left, right, result] := by
  cases mode <;> rfl

theorem operandCells_moduloCode
    (rounding : QuotientRounding)
    (left right quotient slot whole product result : Cell) :
    operandCells
      (moduloCode rounding left right quotient slot whole product result) ⊆
      [left, right, quotient, slot, whole, product, result] ++
        (controlDeclarations rounding).map Declaration.cell := by
  cases rounding with
  | floor =>
      have cells :
          operandCells
            (moduloCode .floor left right quotient slot whole product result) =
            [right, left, quotient, quotient, .savedControl, .savedControl,
              .floorControl,
              .floorControl, slot, .savedControl, slot, whole, right, whole,
              product, left,
              product, result] :=
        rfl
      simp only [cells, controlDeclarations, List.map_cons, List.map_nil,
        List.cons_append, List.nil_append, List.cons_subset, List.mem_cons,
        true_or, or_true, List.nil_subset, and_self]
  | ambient =>
      have cells :
          operandCells
            (moduloCode .ambient left right quotient slot whole product
              result) =
            [right, left, quotient, quotient, slot, slot, whole, right, whole,
              product, left,
              product, result] :=
        rfl
      simp only [cells, List.cons_append, List.nil_append, List.cons_subset,
        List.mem_cons, true_or, or_true, List.nil_subset, and_self]

/-- The temporary of an expression is declared by its fragment. -/
theorem cell_mem_data_expression
    (options : Options)
    (value : Expr)
    (counters : Counters) :
    (expression options value counters).cell ∈
      (expression options value counters).data.map Declaration.cell := by
  cases value <;>
    simp [expression, zeroOperand, literalOperand, variableOperand,
      arithmeticOperand, moduloOperand, comparisonOperand, declareTemporary]

/-- The code of an operation may name the temporaries of both operands. -/
theorem Names.operation
    {options : Options}
    {leftNames rightNames : List String}
    {leftData rightData ownData : List Declaration}
    {leftCode rightCode own : List Line}
    {left right : Cell}
    (leftNamed : Names options leftNames leftData leftCode)
    (rightNamed : Names options rightNames rightData rightCode)
    (leftDeclared : left ∈ leftData.map Declaration.cell)
    (rightDeclared : right ∈ rightData.map Declaration.cell)
    (ownNamed :
      operandCells own ⊆ left :: right :: nameable options [] ownData) :
    Names options (leftNames ++ rightNames) (leftData ++ rightData ++ ownData)
      (leftCode ++ rightCode ++ own) := by
  refine ((leftNamed.append rightNamed).mono (List.Subset.refl _)
    (List.subset_append_left _ _)).followed (List.Subset.trans ownNamed ?_)
  have declared :
      ∀ cell, cell ∈ leftData.map Declaration.cell ∨
        cell ∈ rightData.map Declaration.cell →
        cell ∈ nameable options (leftNames ++ rightNames)
          (leftData ++ rightData ++ ownData) := by
    intro cell isDeclared
    refine List.mem_append_left _ ?_
    rw [List.map_append, List.map_append]
    exact List.mem_append_left _ (List.mem_append.mpr isDeclared)
  refine List.cons_subset.mpr ⟨declared left (.inl leftDeclared),
    List.cons_subset.mpr ⟨declared right (.inr rightDeclared), ?_⟩⟩
  exact nameable_subset (List.nil_subset _) (List.subset_append_right _ _)

/--
The code of an expression names what its fragment declares, its variables
and control words.
-/
theorem names_expression
    (options : Options)
    (value : Expr)
    (counters : Counters) :
    Names options value.names (expression options value counters).data
      (expression options value counters).code := by
  have declared := cell_mem_data_expression options
  induction value generalizing counters with
  | absent | misplaced =>
      exact .of_declared List.mem_cons_self rfl
  | literal lexeme =>
      show [Cell.literal (counters.cells + 2),
        .temporary (counters.cells + 1)] ⊆ _
      simp [nameable, expression, literalOperand, declareTemporary,
        declareLiteral]
  | «variable» name =>
      show [Cell.variable (Symbol.storedName name),
        .temporary (counters.cells + 1)] ⊆ _
      simp [nameable, expression, variableOperand, declareTemporary, Expr.names]
  | arithmetic operation left right leftNamed rightNamed =>
      refine Names.operation (leftNamed _) (rightNamed _) (declared left _)
        (declared right _) ?_
      rw [operandCells_arithmeticCode]
      simp [nameable, declareTemporary]
  | modulo left right leftNamed rightNamed =>
      refine Names.operation ((leftNamed _).behind rfl) (rightNamed _)
        (declared left _) (declared right _) ?_
      refine List.Subset.trans (operandCells_moduloCode ..) ?_
      simp [nameable, declareTemporary, declareSlot]
  | comparison relation left right leftNamed rightNamed =>
      refine Names.operation (leftNamed _) (rightNamed _) (declared left _)
        (declared right _) ?_
      rw [operandCells_comparisonCode]
      simp [nameable, declareTemporary]

/--
The code of a statement names what its fragment declares, its variables
and control words.
-/
theorem names_statement
    (options : Options)
    (body : Stmt)
    (counters : Counters) :
    Names options body.names (statement options body counters).data
      (statement options body counters).code := by
  have inExpression := names_expression options
  have declared := cell_mem_data_expression options
  induction body generalizing counters with
  | skip =>
      exact .of_idle rfl
  | sequence first second firstNamed secondNamed =>
      exact (firstNamed _).append (secondNamed _)
  | conditional condition body bodyNamed =>
      exact (((inExpression condition _).followed
        (.of_declared (declared condition _) rfl)).append
        (bodyNamed _)).followed (.of_idle rfl)
  | choice condition onTrue onFalse trueNamed falseNamed =>
      rw [Stmt.names, ← List.append_assoc]
      exact (((((inExpression condition _).followed
        (.of_declared (declared condition _) rfl)).append
          (trueNamed _)).followed
          (.of_idle rfl)).append (falseNamed _)).followed (.of_idle rfl)
  | loop condition body bodyNamed =>
      exact ((((inExpression condition _).behind rfl).followed
        (.of_declared (declared condition _) rfl)).append
          (bodyNamed _)).followed (.of_idle rfl)
  | assignment target value =>
      have valueNamed :=
        (inExpression value counters).mono (List.subset_cons_self target _)
          (List.Subset.refl _)
      refine (valueNamed.behind rfl).followed ?_
      show [(expression options value counters).cell,
        .variable (Symbol.storedName target)] ⊆ _
      refine List.cons_subset.mpr
        ⟨List.mem_append_left _ (declared value _), ?_⟩
      simp [nameable]
  | evaluation value =>
      exact inExpression value counters

end Compile

/-- A name that a table contains is the name of a symbol, up to its blanks. -/
theorem Symbol.Table.exists_of_contains
    {table : Symbol.Table}
    {name : String}
    (contained : table.contains name = true) :
    ∃ symbol ∈ table.symbols, symbol.name = Symbol.storedName name := by
  obtain ⟨symbol, found⟩ := Option.isSome_iff_exists.mp contained
  exact ⟨symbol, mem_of_get? found⟩

namespace Program

variable
    (program : Program)
    (options : Compile.Options)

/--
Where the variables of the tree are declared, every cell that the code names is.
-/
theorem name_mem_declaredNames
    (declared :
      ∀ tag ∈ (program.tree.map Node.tag).identifiers,
        program.symbols.contains tag = true)
    {cell : Cell}
    (named : cell ∈ operandCells (program.listing options).code) :
    cell.name ∈ declaredNames (program.listing options).data := by
  have code :
      operandCells (program.listing options).code =
        operandCells (program.fragment options).code := by
    have header : operandCells Compile.codeHeader = [] := rfl
    have footer : operandCells Compile.codeFooter = [] := rfl
    rw [listing, Compile.listing, Compile.listingAround, operandCells_append,
      operandCells_append, header, footer, List.nil_append, List.append_nil]
    rfl
  rw [code] at named
  have nameable :=
    Compile.names_statement options (Compile.statementOf program.tree)
      .start named
  rw [declaredNames_data]
  simp only [Compile.nameable, List.mem_append, List.mem_map] at nameable
  rcases nameable with
    ⟨declaration, member, rfl⟩ | ⟨name, isName, rfl⟩
        | ⟨declaration, member, rfl⟩
  · exact List.mem_append_right _
      (List.mem_append_right _ (List.mem_map_of_mem member))
  · have isTag := Stmt.names_ofTree _ isName
    obtain ⟨symbol, isSymbol, sameName⟩ :=
      Symbol.Table.exists_of_contains (declared name isTag)
    refine List.mem_append_left _
      (List.mem_map.mpr ⟨symbol, isSymbol, sameName⟩)
  · refine List.mem_append_right _ (List.mem_append_left _ ?_)
    exact List.mem_map_of_mem (List.mem_append_right _ member)

/--
Without a change of the control word only symbols can have the names of
its two cells.
-/
theorem control_not_declared
    (ambient : options.modulo = .ambient)
    {cell : Cell}
    (control : cell = .savedControl ∨ cell = .floorControl)
    (free : ∀ symbol ∈ program.symbols.symbols, symbol.name ≠ cell.name) :
    cell.name ∉ declaredNames (program.listing options).data := by
  have generated : cell.IsGenerated := by
    rcases control with rfl | rfl <;> trivial
  rw [declaredNames_data, ambient]
  simp only [List.mem_append, not_or]
  refine ⟨?_, ?_, ?_⟩
  · intro isSymbol
    obtain ⟨symbol, member, sameName⟩ := List.mem_map.mp isSymbol
    exact free symbol member sameName
  · rcases control with rfl | rfl <;> decide
  · intro isGenerated
    obtain ⟨declaration, member, sameName⟩ := List.mem_map.mp isGenerated
    have allotted := program.allotted_code options
    have sameCell : declaration.cell = cell :=
      Cell.eq_of_generated (allotted.generated member) generated sameName
    have numbered := allotted.numbered declaration member
    rw [sameCell] at numbered
    rcases control with rfl | rfl <;>
      simp [Cell.number?, Cell.slotNumber?] at numbered

/--
If every variable of the tree is declared, up to blanks, then every name that an
instruction puts between brackets is the name of a declaration. The two cells
for the control word are neither declared nor named where the control word is
not changed and no symbol has their names.
-/
theorem operands_declared
    (program : Program)
    (options : Compile.Options)
    (declared :
      ∀ tag ∈ (program.tree.map Node.tag).identifiers,
        program.symbols.contains tag = true) :
    (∀ line ∈ (program.listing options).code,
      ∀ name, line.bracketedName? = some name →
      name ∈ declaredNames (program.listing options).data) ∧
    (options.modulo = .ambient →
      (∀ symbol ∈ program.symbols.symbols,
        symbol.name ≠ "@cwSave" ∧ symbol.name ≠ "@cwFloor") →
        ∀ name, name = "@cwSave" ∨ name = "@cwFloor" →
          name ∉ declaredNames (program.listing options).data ∧
            ∀ line ∈ (program.listing options).code,
              line.bracketedName? ≠ some name) := by
  have namesDeclared :
      ∀ line ∈ (program.listing options).code,
        ∀ name, line.bracketedName? = some name →
        name ∈ declaredNames (program.listing options).data := by
    intro line member name bracketed
    rw [Line.bracketedName?_eq] at bracketed
    obtain ⟨cell, isCell, rfl⟩ := Option.map_eq_some_iff.mp bracketed
    exact program.name_mem_declaredNames options declared
      (List.mem_filterMap.mpr ⟨line, member, isCell⟩)
  refine ⟨namesDeclared, ?_⟩
  intro ambient free name isControl
  have notDeclared : name ∉ declaredNames (program.listing options).data := by
    rcases isControl with rfl | rfl
    · exact program.control_not_declared options ambient (.inl rfl)
        fun symbol member => (free symbol member).1
    · exact program.control_not_declared options ambient (.inr rfl)
        fun symbol member => (free symbol member).2
  exact ⟨notDeclared, fun line member bracketed =>
    notDeclared (namesDeclared line member name bracketed)⟩

/--
A remainder of a variable that is written with other blanks than it is
declared with.
-/
def spaced : Program :=
  let built :=
    Store.empty.addTree
      (.node "=" (.leaf "a b") (.node "%" (.leaf "a\tb") (.leaf "2")))
  ⟨built.1, Symbol.Table.empty.insert (.ofName "a\nb"), built.2⟩

theorem operands_declared_spaced :
    (spaced.tree.map Node.tag).identifiers = ["a b", "a\tb"] ∧
      declaredNames (spaced.listing .legacy).data =
        ["a_b", "@c", "@sum", "@mult", "@aux", "@tmp1", "@tmp2", "@lit3",
          "@tmp4", "@intSlot1",
          "@tmp5", "@tmp6", "@tmp7"] ∧
      (∀ line ∈ (spaced.listing .legacy).code,
        ∀ name, line.bracketedName? = some name →
        name ∈ declaredNames (spaced.listing .legacy).data) ∧
      ∀ line ∈ (spaced.listing .legacy).code,
        line.bracketedName? ≠ some "@cwSave" := by
  have declared := operands_declared spaced .legacy (by decide)
  exact ⟨by decide, by decide, declared.1,
    (declared.2 rfl (by decide) "@cwSave" (.inl rfl)).2⟩

end Program

end Coprocessor
