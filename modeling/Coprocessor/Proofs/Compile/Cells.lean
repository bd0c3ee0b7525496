import Coprocessor.Proofs.Compile.Allotment
import Coprocessor.Proofs.Compile.Orderliness
import Coprocessor.Proofs.Compile.Supply

namespace Coprocessor

open Assembly

/-!
# Generated cells of compiled programs

The names in a listing tell its generated cells apart from declared symbols and
fixed cells, so what holds of the cells of a fragment holds of the names in the
listing: the cells are numbered without gaps, each is filled by one line, and
every walk to a line that reads one has passed that line.
-/

namespace Program

variable
    (program : Program)
    (options : Compile.Options)

/-- The fragment of the statement tree of a program. -/
def fragment : Compile.Fragment :=
  Compile.statement options (Compile.statementOf program.tree) .start

/--
The names that a listing declares are those of the symbols, the fixed
ones and the rest.
-/
theorem declaredNames_data :
    declaredNames (program.listing options).data =
      program.symbols.symbols.map Symbol.name ++
        ((Compile.scratchDeclarations ++
          Compile.controlDeclarations options.modulo).map
            (·.cell.name) ++
          (program.fragment options).data.map (·.cell.name)) := by
  have declared :
      ∀ declarations : List Declaration,
        declaredNames (declarations.map .declare) =
          declarations.map (·.cell.name) := by
    intro declarations
    simp [declaredNames, List.filterMap_map]
  have header : declaredNames Compile.dataHeader = [] :=
    rfl
  have symbols :
      declaredNames
          (program.symbols.symbols.map fun symbol =>
            .declare (Compile.declareSymbol symbol)) =
        program.symbols.symbols.map Symbol.name := by
    simp [declaredNames, List.filterMap_map, Function.comp_def,
      Compile.declareSymbol, Cell.name]
  have split :
      ∀ first second : List Line,
        declaredNames (first ++ second) =
          declaredNames first ++ declaredNames second :=
    fun _ _ => List.filterMap_append
  have separator : declaredNames [.blank] = [] :=
    rfl
  rw [listing, Compile.listing, Compile.listingAround, split, split, split,
    header, symbols, separator, declared, List.map_append, List.nil_append,
    List.append_nil]
  rfl

/--
Apart from symbols and fixed cells only the fragment declares names
of a reserved kind.
-/
theorem filter_declaredNames
    (isKind : String → Bool)
    (freeSymbols :
      ∀ symbol ∈ program.symbols.symbols,
        isReserved (Symbol.storedName symbol.name) = false)
    (reserved : ∀ name, isKind name = true → isReserved name = true)
    (notFixed :
      ((Compile.scratchDeclarations ++
        Compile.controlDeclarations options.modulo).map
        (·.cell.name)).filter isKind = []) :
    (declaredNames (program.listing options).data).filter isKind =
      ((program.fragment options).data.map (·.cell.name)).filter isKind := by
  have notSymbol :
      (program.symbols.symbols.map Symbol.name).filter isKind = [] := by
    rw [List.filter_eq_nil_iff]
    intro name member named
    obtain ⟨symbol, isSymbol, rfl⟩ := List.mem_map.mp member
    have free := freeSymbols symbol isSymbol
    rw [isReserved_storedName, reserved _ named] at free
    cases free
  rw [declaredNames_data, List.filter_append, List.filter_append, notSymbol,
    notFixed, List.nil_append, List.nil_append]

/-- The cells of the code are allotted as the fragment declares them. -/
theorem allotted_code :
    Compile.Allotted .start (program.fragment options).next
      (program.fragment options).data (program.listing options).code :=
  ((Compile.allotted_statement options (Compile.statementOf program.tree)
    .start).behind rfl).followed rfl

theorem orderly_code
    (freeTags :
      ∀ tag ∈ (program.tree.map Node.tag).identifiers,
        isReserved (Symbol.storedName tag) = false) :
    ∀ line ∈ (program.listing options).code, line.IsOrderly := by
  have header : ∀ line ∈ Compile.codeHeader, line.IsOrderly := by
    simp [Compile.codeHeader, Line.IsOrderly, Line.instr?]
  have footer : ∀ line ∈ Compile.codeFooter, line.IsOrderly := by
    simp [Compile.codeFooter, Line.IsOrderly, Line.instr?]
  have body :=
    Compile.orderly_statement options
      (fun name member => freeTags name (Stmt.names_ofTree _ member)) .start
  exact List.forall_mem_append.mpr
    ⟨List.forall_mem_append.mpr ⟨header, body⟩, footer⟩

/--
On every walk to a line that reads a temporary or a slot, the cell
has been written.
-/
theorem written_before_read
    {passed : List Line}
    {position : Nat}
    {line : Line}
    {cell : Cell}
    (walk : Walk (program.listing options).code passed position)
    (lineAt : (program.listing options).code[position]? = some line)
    (reads : line.read? = some cell)
    (isFilled : cell.IsFilled) :
    ∃ earlier ∈ passed, earlier.written? = some cell := by
  have compact : Compact (program.listing options).code := by
    refine ((Compact.of_clearing ?_).append
      (Compile.compact_statement options _ _)).append (.of_clearing ?_)
    · simp [Compile.codeHeader, Line.control?]
    · simp [Compile.codeFooter, Line.control?]
  have supplied : Supplied [] (program.listing options).code := by
    rw [listing, Compile.listing, Compile.listingAround, supplied_append,
      supplied_append]
    refine ⟨⟨?_, Compile.supplied_statement options _ _ _⟩, ?_⟩
    · simp [Compile.codeHeader, Supplied, Line.IsSupplied, Line.read?,
        Line.instr?]
    · simp [Compile.codeFooter, Supplied, Line.IsSupplied, Line.read?,
        Line.instr?]
  have keeps : line.clears = false := by
    cases line with
    | label defined =>
        cases reads
    | _ =>
        rfl
  exact written_on_walk compact (program.nested_code options).nodup_labels walk
    lineAt keeps (supplied.at lineAt cell reads isFilled)

section Symbols

variable
    (freeSymbols :
      ∀ symbol ∈ program.symbols.symbols,
        isReserved (Symbol.storedName symbol.name) = false)

include freeSymbols

theorem declared_cellNames :
    (declaredNames (program.listing options).data).filter
        (fun name => isNamed "@tmp" name || isNamed "@lit" name) =
      ((program.fragment options).data.map (·.cell.name)).filter
        (fun name => isNamed "@tmp" name || isNamed "@lit" name) := by
  refine program.filter_declaredNames options _ freeSymbols ?_ ?_
  · intro name named
    rcases Bool.or_eq_true_iff.mp named with isTemporary | isLiteral
    · exact isReserved_of_isNamed (by decide) isTemporary
    · exact isReserved_of_isNamed (by decide) isLiteral
  · cases options.modulo <;> decide

theorem declared_slotNames :
    (declaredNames (program.listing options).data).filter (isNamed "@intSlot") =
      ((program.fragment options).data.map (·.cell.name)).filter
        (isNamed "@intSlot") := by
  refine program.filter_declaredNames options _ freeSymbols ?_ ?_
  · intro name named
    exact isReserved_of_isNamed (by decide) named
  · cases options.modulo <;> decide

/-- The name of a temporary or a slot is declared for that cell. -/
theorem filled_declared
    {cell : Cell}
    {stored? : Line → Option Cell}
    (fills : FilledBy cell stored?)
    (declared : cell.name ∈ declaredNames (program.listing options).data) :
    ∃ declaration ∈ (program.fragment options).data,
      declaration.cell = cell := by
  have inFragment :
      cell.name ∈ (program.fragment options).data.map (·.cell.name) := by
    cases fills with
    | real number =>
        have kept :
            (Cell.temporary number).name ∈
              (declaredNames (program.listing options).data).filter
                (fun name => isNamed "@tmp" name || isNamed "@lit" name) :=
          List.mem_filter.mpr ⟨declared, by simp [Cell.name, isNamed_append]⟩
        rw [program.declared_cellNames options freeSymbols] at kept
        exact List.mem_of_mem_filter kept
    | integer number =>
        have named : isNamed "@intSlot" (Cell.slot number).name = true :=
          isNamed_append _ _
        have kept := List.mem_filter.mpr ⟨declared, named⟩
        rw [program.declared_slotNames options freeSymbols] at kept
        exact List.mem_of_mem_filter kept
  obtain ⟨declaration, member, sameName⟩ := List.mem_map.mp inFragment
  exact ⟨declaration, member, Cell.eq_of_generated
    ((program.allotted_code options).generated member) fills.isGenerated
    sameName⟩

end Symbols

section Filled

variable
    (freeTags :
      ∀ tag ∈ (program.tree.map Node.tag).identifiers,
        isReserved (Symbol.storedName tag) = false)
    {cell : Cell}
    {stored? : Line → Option Cell}
    (fills : FilledBy cell stored?)

include freeTags fills

/--
A declared temporary or slot is written by one line, which stores
what belongs there.
-/
theorem stored_once
    (freeSymbols :
      ∀ symbol ∈ program.symbols.symbols,
        isReserved (Symbol.storedName symbol.name) = false)
    (declared : cell.name ∈ declaredNames (program.listing options).data) :
    useCount stored? (program.listing options).code cell.name = 1 ∧
      useCount Line.written? (program.listing options).code cell.name = 1 := by
  have counts :=
    useCount_of_filledBy (program.orderly_code options freeTags) fills
  have once := (program.allotted_code options).countP_filled
    (program.filled_declared options freeSymbols fills declared)
    (Cell.filled?_eq_self fills.isFilled)
  rwa [counts.1, counts.2, and_self]

/--
On every walk to a line that reads a temporary or a slot, the cell
has been stored.
-/
theorem stored_first
    {passed : List Line}
    {position : Nat}
    {line : Line}
    (walk : Walk (program.listing options).code passed position)
    (lineAt : (program.listing options).code[position]? = some line)
    (reads : line.read?.map Cell.name = some cell.name) :
    0 < useCount stored? passed cell.name := by
  have orderly := program.orderly_code options freeTags
  have lineOrderly := orderly line (List.mem_of_getElem? lineAt)
  have passedOrderly :=
    fun other inside => orderly other (walk.passed_subset inside)
  obtain ⟨earlier, member, writes⟩ :=
    program.written_before_read options walk lineAt
      (lineOrderly.read?_of_name fills.isProper reads) fills.isFilled
  rw [(useCount_of_filledBy passedOrderly fills).1, List.countP_pos_iff]
  refine ⟨earlier, member, beq_iff_eq.mpr (fills.filled?_iff.mpr ?_)⟩
  exact (fills.written?_iff (passedOrderly earlier member)).mp writes

end Filled

/--
If neither a variable of the tree nor a declared symbol has a reserved name, the
generated cells of a compiled program are numbered without gaps, written once
and never read before they are written.
-/
theorem cells_ordered
    (program : Program)
    (options : Compile.Options)
    (freeTags :
      ∀ tag ∈ (program.tree.map Node.tag).identifiers,
        isReserved (Symbol.storedName tag) = false)
    (freeSymbols :
      ∀ symbol ∈ program.symbols.symbols,
        isReserved (Symbol.storedName symbol.name) = false) :
    CellsOrdered (program.listing options) := by
  have allotted := program.allotted_code options
  constructor
  · refine ⟨(program.fragment options).next.cells, ?_⟩
    have named := allotted.forall₂_names
    rw [allotted.cells.2] at named
    rw [program.declared_cellNames options freeSymbols]
    exact named
  · refine ⟨(program.fragment options).next.slots, ?_⟩
    have named := allotted.slot_names
    rw [allotted.slots.2] at named
    rw [program.declared_slotNames options freeSymbols]
    exact named
  · intro number
    exact program.stored_once options freeTags (.real number) freeSymbols
  · intro number
    exact program.stored_once options freeTags (.integer number) freeSymbols
  · exact useCount_written_literal (program.orderly_code options freeTags)
  · intro passed position line number
    exact program.stored_first options freeTags (.real number)
  · intro passed position line number
    exact program.stored_first options freeTags (.integer number)

/--
A program that takes the remainder of `n` by two while `n` is at least two.
-/
def parity : Program :=
  let built :=
    Store.empty.addTree
      (.node "while"
        (.node ">=" (.leaf "n") (.leaf "2"))
        (.node "=" (.leaf "n") (.node "%" (.leaf "n") (.leaf "2"))))
  ⟨built.1, Symbol.Table.empty.insert (.ofName "n"), built.2⟩

theorem cells_ordered_parity :
    (parity.tree.map Node.tag).identifiers = ["n", "n", "n"] ∧
      parity.symbols.symbols.map Symbol.name = ["n"] ∧
        CellsOrdered (parity.listing {}) :=
  ⟨by decide, by decide, cells_ordered parity {} (by decide) (by decide)⟩

end Program

end Coprocessor
