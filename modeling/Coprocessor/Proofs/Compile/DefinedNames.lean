import Coprocessor.Proofs.Compile.Cells
import Coprocessor.Proofs.Symbol.History

namespace Coprocessor

open Assembly

/-!
# Names defined by a listing

A listing defines the names of its declarations and of its labels. They come
from four sources: the symbols, the fixed cells, the numbered cells and the
labels. Fixed and numbered cells have reserved names, and only the numbered ones
hold a digit, so these two sources never meet each other or a label, nor a
symbol whose name is not reserved. Nothing keeps the name of a symbol apart from
a label: where they meet, and only there, a name is defined twice.
-/

namespace Assembly

/-- All names that a listing defines, those of declarations first. -/
def Listing.definedNames (listing : Listing) : List String :=
  declaredNames listing.data ++ (labels listing.code).map Label.name

/-- The names of the labels of constructs that are numbered from one. -/
def labelNames (constructs : List Construct) : List String :=
  constructs.zipIdx.flatMap fun entry =>
    entry.1.landmarks.map fun landmark => (Label.mk landmark (entry.2 + 1)).name

theorem mem_labelNames
    {constructs : List Construct}
    {name : String} :
    name ∈ labelNames constructs ↔
      ∃ index construct landmark,
        constructs[index]? = some construct ∧ landmark ∈ construct.landmarks ∧
          (Label.mk landmark (index + 1)).name = name := by
  simp only [labelNames, List.mem_flatMap, List.mem_map]
  constructor
  · rintro ⟨⟨construct, index⟩, member, landmark, isLandmark, named⟩
    exact ⟨index, construct, landmark, List.mem_zipIdx_iff_getElem?.mp member,
      isLandmark, named⟩
  · rintro ⟨index, construct, landmark, constructAt, isLandmark, named⟩
    exact ⟨(construct, index), List.mem_zipIdx_iff_getElem?.mpr constructAt,
      landmark, isLandmark, named⟩

/-- No label has a reserved name. -/
theorem Label.isReserved_name (label : Label) :
    isReserved label.name = false := by
  rcases label with ⟨landmark, number⟩
  cases landmark <;>
    simp [isReserved, name, Landmark.word, String.toList_append]

/-- A numbered name holds a digit. -/
theorem isWordy_numbered
    (word : String)
    (number : Nat) :
    isWordy (word ++ toString number) = false := by
  obtain ⟨digit, rest, digits⟩ :
      ∃ digit rest, Nat.toDigits 10 number = digit :: rest :=
    List.exists_cons_of_ne_nil Nat.toDigits_ne_nil
  have isDigit : digit.isDigit = true :=
    Nat.isDigit_of_mem_toDigits (by decide) (by decide)
      (digits ▸ List.mem_cons_self)
  rw [isWordy, String.toList_append, Nat.toString_eq_repr, Nat.toList_repr,
    digits, List.all_append, List.all_cons, isDigit]
  simp

/-- Nested code defines the labels of its constructs. -/
theorem Nested.mem_labels_iff
    {after : Nat}
    {constructs : List Construct}
    {code : List Line}
    (nested : Nested 0 constructs code after)
    {name : String} :
    name ∈ (labels code).map Label.name ↔ name ∈ labelNames constructs := by
  have isDefined : ∀ label, label ∈ labels code ↔ Line.label label ∈ code := by
    intro label
    simp [labels, List.mem_filterMap, Line.label?_eq_some]
  rw [mem_labelNames, List.mem_map]
  constructor
  · rintro ⟨⟨landmark, number⟩, member, named⟩
    obtain ⟨positive, construct, constructAt, isLandmark⟩ :=
      (nested.label_mem_iff landmark number).mp ((isDefined _).mp member)
    refine ⟨number - 1, construct, landmark, constructAt, isLandmark, ?_⟩
    rwa [Nat.sub_add_cancel positive]
  · rintro ⟨index, construct, landmark, constructAt, isLandmark, named⟩
    refine ⟨⟨landmark, index + 1⟩, (isDefined _).mpr ?_, named⟩
    exact (nested.label_mem_iff landmark (index + 1)).mpr
      ⟨Nat.le_add_left 1 index, construct, constructAt, isLandmark⟩

end Assembly

namespace Compile

/-- The fixed cells of a listing. -/
def fixedDeclarations (rounding : QuotientRounding) : List Declaration :=
  scratchDeclarations ++ controlDeclarations rounding

theorem nodup_fixed (rounding : QuotientRounding) :
    ((fixedDeclarations rounding).map (·.cell.name)).Nodup := by
  cases rounding <;> decide

/-- The names of fixed cells are reserved and hold no digit. -/
theorem fixed_name
    {rounding : QuotientRounding}
    {name : String}
    (member : name ∈ (fixedDeclarations rounding).map (·.cell.name)) :
    isReserved name = true ∧ isWordy name = true := by
  have all :
      ((fixedDeclarations rounding).map (·.cell.name)).all
        (fun name => isReserved name && isWordy name) = true := by
    cases rounding <;> decide
  exact Bool.and_eq_true_iff.mp (List.all_eq_true.mp all name member)

namespace Allotted

variable
    {before after : Counters}
    {data : List Declaration}
    {code : List Line}
    (allotted : Allotted before after data code)

include allotted

/-- No cell is declared twice. -/
theorem nodup_cells : (data.map (·.cell)).Nodup := by
  have cellsDiffer : (data.filterMap (·.cell.number?)).Nodup := by
    rw [allotted.cells.2]
    exact List.nodup_range' 1
  have slotsDiffer : (data.filterMap (·.cell.slotNumber?)).Nodup := by
    rw [allotted.slots.2]
    exact List.nodup_range' 1
  rw [List.Nodup, List.pairwise_filterMap] at cellsDiffer slotsDiffer
  rw [List.Nodup, List.pairwise_map]
  refine (cellsDiffer.and slotsDiffer).imp_of_mem ?_
  rintro first second isFirst - ⟨differentCells, differentSlots⟩ same
  rcases allotted.numbered first isFirst with hasNumber | hasNumber
  · obtain ⟨number, isNumber⟩ := Option.isSome_iff_exists.mp hasNumber
    exact differentCells number isNumber number (same ▸ isNumber) rfl
  · obtain ⟨number, isNumber⟩ := Option.isSome_iff_exists.mp hasNumber
    exact differentSlots number isNumber number (same ▸ isNumber) rfl

/-- No name of a numbered cell is declared twice. -/
theorem nodup_names : (data.map (·.cell.name)).Nodup := by
  have pairs := allotted.nodup_cells
  rw [List.Nodup, List.pairwise_map] at pairs ⊢
  refine pairs.imp_of_mem ?_
  intro first second isFirst isSecond different same
  exact different
    (Cell.eq_of_generated (allotted.generated isFirst)
      (allotted.generated isSecond) same)

/-- The names of numbered cells are reserved and hold a digit. -/
theorem numbered_name
    {name : String}
    (member : name ∈ data.map (·.cell.name)) :
    isReserved name = true ∧ isWordy name = false := by
  obtain ⟨declaration, isDeclared, rfl⟩ := List.mem_map.mp member
  refine ⟨Cell.isReserved_name (allotted.generated isDeclared), ?_⟩
  have numbered := allotted.numbered declaration isDeclared
  cases cell : declaration.cell with
  | temporary number | literal number | slot number =>
      exact isWordy_numbered _ number
  | «variable» | savedControl | floorControl | scratch =>
      simp [cell, Cell.number?, Cell.slotNumber?] at numbered

end Allotted

end Compile

namespace Program

variable
    (program : Program)
    (options : Compile.Options)

/-- The names of all cells that the compiler makes up, fixed ones first. -/
def ownNames : List String :=
  (Compile.fixedDeclarations options.modulo).map (·.cell.name) ++
    (program.fragment options).data.map (·.cell.name)

theorem nodup_ownNames : (program.ownNames options).Nodup := by
  have allotted := program.allotted_code options
  refine (Compile.nodup_fixed options.modulo).append allotted.nodup_names ?_
  intro name isFixed isNumbered
  have wordy := (Compile.fixed_name isFixed).2
  rw [(allotted.numbered_name isNumbered).2] at wordy
  cases wordy

theorem isReserved_ownNames
    {name : String}
    (member : name ∈ program.ownNames options) :
    isReserved name = true := by
  rcases List.mem_append.mp member with isFixed | isNumbered
  · exact (Compile.fixed_name isFixed).1
  · exact ((program.allotted_code options).numbered_name isNumbered).1

section Symbols

variable
    (ordered : program.symbols.IsOrdered)
    (free : ∀ symbol ∈ program.symbols.symbols, isReserved symbol.name = false)

include ordered free

/-- Where no symbol has a reserved name, no name is declared twice. -/
theorem nodup_declaredNames :
    (declaredNames (program.listing options).data).Nodup := by
  have symbolsDiffer : (program.symbols.symbols.map Symbol.name).Nodup :=
    List.pairwise_map.mpr (ordered.ascending.imp fun before => ne_of_lt before)
  rw [declaredNames_data]
  refine symbolsDiffer.append (program.nodup_ownNames options) ?_
  intro name isSymbol isOwn
  obtain ⟨symbol, member, rfl⟩ := List.mem_map.mp isSymbol
  have notReserved := free symbol member
  rw [program.isReserved_ownNames options isOwn] at notReserved
  cases notReserved

end Symbols

/-- Of the declared names only those of symbols can be labels. -/
theorem disjoint_labels_iff :
    (declaredNames (program.listing options).data).Disjoint
        ((labels (program.listing options).code).map Label.name) ↔
      ∀ symbol ∈ program.symbols.symbols,
        symbol.name ∉
          labelNames ((program.tree.map Node.tag).constructs false) := by
  have nested := program.nested_code options
  rw [declaredNames_data]
  constructor
  · intro disjoint symbol member isLabel
    exact disjoint (List.mem_append_left _ (List.mem_map_of_mem member))
      (nested.mem_labels_iff.mpr isLabel)
  · intro apart name declared isLabel
    rcases List.mem_append.mp declared with isSymbol | isOwn
    · obtain ⟨symbol, member, rfl⟩ := List.mem_map.mp isSymbol
      exact apart symbol member (nested.mem_labels_iff.mp isLabel)
    · obtain ⟨label, -, rfl⟩ := List.mem_map.mp isLabel
      have reserved := program.isReserved_ownNames options isOwn
      rw [label.isReserved_name] at reserved
      cases reserved

/--
If no symbol has a reserved name, then no name is declared twice and no label is
defined twice, and all defined names are different exactly if no symbol has the
name of a label of the program.
-/
theorem names_distinct_iff
    (store : Store)
    (operations : List Symbol.Operation)
    (root : Nat)
    (options : Compile.Options)
    (free :
      ∀ symbol ∈ (Symbol.Table.after operations).symbols,
        isReserved symbol.name = false) :
    let program : Program := ⟨store, .after operations, root⟩
    (declaredNames (program.listing options).data).Nodup ∧
      ((labels (program.listing options).code).map Label.name).Nodup ∧
      ((program.listing options).definedNames.Nodup ↔
        ∀ symbol ∈ program.symbols.symbols,
          symbol.name ∉
            labelNames ((program.tree.map Node.tag).constructs false)) := by
  intro program
  have declaredDiffer :=
    program.nodup_declaredNames options
      (Symbol.Table.isOrdered_after operations) free
  have labelsDiffer :
      ((labels (program.listing options).code).map Label.name).Nodup :=
    (program.nested_code options).nodup_labels.map fun _ _ same =>
      Label.name_inj.mp same
  refine ⟨declaredDiffer, labelsDiffer, ?_⟩
  rw [← program.disjoint_labels_iff options, Listing.definedNames,
    List.nodup_append']
  exact ⟨fun differ => differ.2.2,
    fun disjoint => ⟨declaredDiffer, labelsDiffer, disjoint⟩⟩

/-- A conditional assignment of a remainder to a variable. -/
def guarded
    (name : String)
    (operations : List Symbol.Operation) :
    Program :=
  let built :=
    Store.empty.addTree
      (.node "if" (.leaf name)
        (.node "=" (.leaf name) (.node "%" (.leaf name) (.leaf "2"))))
  ⟨built.1, .after operations, built.2⟩

/--
A symbol is inserted under the name of a label, and erased before the
program is compiled.
-/
def retracted : List Symbol.Operation :=
  [.insert (.ofName "ELSE1"), .insert (.ofName "x y"),
    .setType "ELSE1" .integer,
    .erase "ELSE1", .insert (.ofName "ELSE2")]

theorem names_distinct_iff_retracted :
    (Symbol.Table.after retracted).symbols.map Symbol.name = ["ELSE2", "x_y"] ∧
      labelNames
        (((guarded "x y" retracted).tree.map Node.tag).constructs false) =
        ["ELSE1", "END_IF1"] ∧
      ((guarded "x y" retracted).listing {}).definedNames.Nodup := by
  have distinct := names_distinct_iff (guarded "x y" retracted).store retracted
    (guarded "x y" retracted).root {} (by decide)
  exact ⟨by decide, by decide, distinct.2.2.mpr (by decide)⟩

/--
A variable with the name of a label is defined twice, although that
name is not reserved.
-/
theorem names_clash_with_label :
    (∀ symbol ∈ (Symbol.Table.after [.insert (.ofName "ELSE1")]).symbols,
      isReserved symbol.name = false) ∧
      ¬ ((guarded "ELSE1" [.insert (.ofName "ELSE1")]).listing
        {}).definedNames.Nodup := by
  decide

end Program

end Coprocessor
