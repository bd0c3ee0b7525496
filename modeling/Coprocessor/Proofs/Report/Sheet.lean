import Coprocessor.Proofs.Compile.LineFeeds
import Coprocessor.Proofs.Report.Graph
import Coprocessor.Report.Sheet

namespace Coprocessor

/-!
# Lines of a symbol sheet

A sheet has a row for each symbol between its heading and its last border. Names
hold no line feed, since their blanks are replaced, and types and lengths are
written by the sheet itself. A value is shown as it was declared, so that each
line feed in it breaks its row once more, and these are the only ones.
-/

namespace Report

/--
A cell: its content flush left, and spaces behind it up to the width
of the column.
-/
structure Fills
    (width : Nat)
    (content : String)
    (cell : List Char) :
    Prop where
  flushLeft : ∃ spaces, cell = content.toList ++ List.replicate spaces ' '
  width : cell.length = max width content.length

/-- A row of the sheet with four contents in their columns. -/
def ShowsCells
    (name type value length : String)
    (row : List Char) :
    Prop :=
  ∃ nameCell typeCell valueCell lengthCell,
    Fills 32 name nameCell ∧ Fills 12 type typeCell ∧ Fills 32 value valueCell ∧
      Fills 8 length lengthCell ∧
      row =
        "| ".toList ++
          (nameCell ++ (" | ".toList ++ (typeCell ++ (" | ".toList ++
          (valueCell ++ (" | ".toList ++ (lengthCell ++ " |".toList)))))))

/-- A row with what is known of a symbol: its name, type, value and length. -/
def ShowsSymbol
    (symbol : Symbol)
    (row : List Char) :
    Prop :=
  ShowsCells symbol.name ((symbol.type.map SymbolType.title).getD "")
    (symbol.value.getD "") ((symbol.length.map toString).getD "") row

theorem toList_padRight
    (width : Nat)
    (text : String) :
    (Text.padRight width text).toList =
      text.toList ++ List.replicate (width - text.length) ' ' := by
  rw [Text.padRight, String.toList_append, String.toList_ofList]

theorem fills_padRight
    (width : Nat)
    (text : String) :
    Fills width text (Text.padRight width text).toList := by
  rw [toList_padRight]
  refine ⟨⟨_, rfl⟩, ?_⟩
  rw [List.length_append, List.length_replicate, String.length_toList]
  omega

namespace SheetRow

theorem toList_render (row : SheetRow) :
    row.render.toList =
      "| ".toList ++ ((Text.padRight 32 row.name).toList ++ (" | ".toList ++
        ((Text.padRight 12 row.type).toList ++ (" | ".toList ++
          ((Text.padRight 32 row.value).toList ++ (" | ".toList ++
            ((Text.padRight 8 row.length).toList ++ " |".toList))))))) := by
  simp [render, cells, sheetWidths]

theorem showsCells_render (row : SheetRow) :
    ShowsCells row.name row.type row.value row.length row.render.toList :=
  ⟨_, _, _, _, fills_padRight 32 row.name, fills_padRight 12 row.type,
    fills_padRight 32 row.value, fills_padRight 8 row.length, row.toList_render⟩

/-- The line feeds of a row are those of its contents. -/
theorem count_feed_render (row : SheetRow) :
    row.render.toList.count '\n' =
      row.name.toList.count '\n' + row.type.toList.count '\n' +
        row.value.toList.count '\n' + row.length.toList.count '\n' := by
  rw [toList_render]
  simp [toList_padRight, List.count_replicate, Nat.add_assoc]

end SheetRow

/-- The lines of the sheet as they are written. -/
def sheetTexts (table : Symbol.Table) : List (List Char) :=
  (sheetLines table).map String.toList

theorem toList_sheet (table : Symbol.Table) :
    (sheet table).toList = (sheetTexts table).flatMap (· ++ ['\n']) := by
  rw [sheet, sheetTexts, String.toList_join, List.flatMap_map, List.flatMap_map]
  simp [String.toList_append]

/-- How many line feeds the values of a table hold. -/
def valueFeeds (table : Symbol.Table) : Nat :=
  (table.symbols.map fun symbol => (symbol.value.getD "").toList.count '\n').sum

/-- A row holds the line feeds of the value of its symbol and no other. -/
theorem count_feed_ofSymbol
    {symbol : Symbol}
    (stored : Symbol.storedName symbol.name = symbol.name) :
    (SheetRow.ofSymbol symbol).render.toList.count '\n' =
      (symbol.value.getD "").toList.count '\n' := by
  have inName : '\n' ∉ symbol.name.toList := by
    rw [← stored]
    exact Text.feed_not_mem_underscored symbol.name
  have inType : '\n' ∉ ((symbol.type.map SymbolType.title).getD "").toList := by
    cases symbol.type with
    | none =>
        decide
    | some type =>
        cases type <;> decide
  have inLength : '\n' ∉ ((symbol.length.map toString).getD "").toList := by
    cases symbol.length with
    | none =>
        decide
    | some length =>
        simp
  rw [SheetRow.count_feed_render, SheetRow.ofSymbol,
    List.count_eq_zero.mpr inName, List.count_eq_zero.mpr inType,
    List.count_eq_zero.mpr inLength, Nat.zero_add, Nat.add_zero]

theorem feed_not_mem_sheetBorder : '\n' ∉ sheetBorder.toList := by
  simp [sheetBorder, sheetWidths]

theorem feed_not_mem_sheetHeading : '\n' ∉ sheetHeading.render.toList := by
  rw [← List.count_eq_zero, SheetRow.count_feed_render]
  decide

/-- The sheet holds the line feeds of the values and no other. -/
theorem count_feed_sheetTexts
    {table : Symbol.Table}
    (ordered : table.IsOrdered) :
    (sheetTexts table).flatten.count '\n' = valueFeeds table := by
  have border := List.count_eq_zero.mpr feed_not_mem_sheetBorder
  have heading := List.count_eq_zero.mpr feed_not_mem_sheetHeading
  have rows : ((table.symbols.map fun symbol =>
      (SheetRow.ofSymbol symbol).render.toList).flatten).count '\n' =
        valueFeeds table := by
    rw [List.count_flatten, List.map_map, valueFeeds]
    exact congrArg List.sum (List.map_congr_left fun symbol member =>
      count_feed_ofSymbol (ordered.stored symbol member))
  rw [← rows]
  simp [sheetTexts, sheetLines, List.count_append, border, heading,
    Function.comp_def]

/--
The text has four lines more than symbols, and one more for each
line feed in a value.
-/
theorem length_lines_sheet
    {table : Symbol.Table}
    (ordered : table.IsOrdered) :
    (Text.lines (sheet table).toList).length =
      table.size + 4 + valueFeeds table := by
  have count : (sheetTexts table).length = table.size + 4 := by
    simp [sheetTexts, sheetLines, Symbol.Table.size]
  rw [toList_sheet, Text.length_lines_flatMap, count,
    count_feed_sheetTexts ordered]

/-- No value holds a line feed if they hold none together. -/
theorem valueFeeds_eq_zero_iff {table : Symbol.Table} :
    valueFeeds table = 0 ↔
      ∀ symbol ∈ table.symbols,
        ∀ value, symbol.value = some value → '\n' ∉ value.toList := by
  rw [valueFeeds, List.sum_eq_zero_iff, List.forall_mem_map]
  refine forall₂_congr fun symbol _ => ?_
  cases symbol.value with
  | none =>
      simp
  | some value =>
      simp [List.count_eq_zero]

/--
The lines of the text are those of the sheet exactly if no value
holds a line feed.
-/
theorem lines_sheet_iff
    {table : Symbol.Table}
    (ordered : table.IsOrdered) :
    Text.lines (sheet table).toList = sheetTexts table ↔
      valueFeeds table = 0 := by
  constructor
  · intro same
    have length := congrArg List.length same
    rw [toList_sheet, Text.length_lines_flatMap,
      count_feed_sheetTexts ordered] at length
    omega
  · intro noFeeds
    have noneCounted := count_feed_sheetTexts ordered
    rw [noFeeds, List.count_eq_zero] at noneCounted
    rw [toList_sheet]
    exact Text.lines_flatMap fun text member hasFeed =>
      noneCounted (List.mem_flatten.mpr ⟨text, member, hasFeed⟩)

/-- The row of every symbol shows it. -/
theorem forall₂_showsSymbol (symbols : List Symbol) :
    List.Forall₂ ShowsSymbol symbols
      (symbols.map fun symbol => (SheetRow.ofSymbol symbol).render.toList) := by
  rw [List.forall₂_map_right_iff, List.forall₂_same]
  intro symbol _
  exact (SheetRow.ofSymbol symbol).showsCells_render

end Report

namespace Program

open Report

/--
The sheet of a program that has been read is written as a border, a heading, a
border, a row for each symbol in ascending order of the names and a border, and
each row shows the name, type, value and length of its symbol. The text has as
many lines as that and one more for each line feed in a value, so that these are
its lines exactly if no value holds a line feed.
-/
theorem sheet_rows
    (source : String)
    (program : Program)
    (reads : read source = .ok program) :
    let symbols := program.symbols.symbols
    let text := (sheet program.symbols).toList
    ∃ heading rows,
      symbols.Pairwise (fun first second => first.name < second.name) ∧
        ShowsCells "NAME" "TYPE" "VALUE" "LENGTH" heading ∧
        List.Forall₂ ShowsSymbol symbols rows ∧
        text =
          ([sheetBorder.toList, heading, sheetBorder.toList] ++ rows ++
            [sheetBorder.toList]).flatMap (· ++ ['\n']) ∧
        (Text.lines text).length =
          program.symbols.size + 4 + valueFeeds program.symbols ∧
        (Text.lines text =
            [sheetBorder.toList, heading, sheetBorder.toList] ++ rows ++
              [sheetBorder.toList] ↔
          ∀ symbol ∈ symbols,
            ∀ value, symbol.value = some value → '\n' ∉ value.toList) := by
  intro symbols text
  have ordered := isOrdered_of_read reads
  have texts : sheetTexts program.symbols =
      [sheetBorder.toList, sheetHeading.render.toList, sheetBorder.toList] ++
        (symbols.map fun symbol => (SheetRow.ofSymbol symbol).render.toList) ++
          [sheetBorder.toList] := by
    simp [sheetTexts, sheetLines, symbols]
  refine ⟨sheetHeading.render.toList, _, ordered.ascending,
    sheetHeading.showsCells_render, forall₂_showsSymbol symbols, ?_,
    length_lines_sheet ordered, ?_⟩
  · rw [← texts]
    exact toList_sheet program.symbols
  · rw [← texts, ← valueFeeds_eq_zero_iff]
    exact lines_sheet_iff ordered

/-- The text of a program that declares a value of two lines. -/
def twoLinedValueSource : String :=
  "(program (decls (n int 7) (\"a b\" string \"x\ny\")))"

/-- The program that the text stands for. -/
def twoLinedValue : Program :=
  ⟨.empty,
    ⟨[⟨"a_b", some .string, some "x\ny", some 3⟩,
      ⟨"n", some .integer, some "7", some 1⟩]⟩,
    0⟩

theorem sheet_rows_twoLinedValue :
    read twoLinedValueSource = .ok twoLinedValue ∧
      ∃ heading rows,
        List.Forall₂ ShowsSymbol twoLinedValue.symbols.symbols rows ∧
          (Text.lines (sheet twoLinedValue.symbols).toList).length = 7 ∧
          Text.lines (sheet twoLinedValue.symbols).toList ≠
            [sheetBorder.toList, heading, sheetBorder.toList] ++ rows ++
              [sheetBorder.toList] := by
  have reads : read twoLinedValueSource = .ok twoLinedValue := rfl
  have feeds : valueFeeds twoLinedValue.symbols = 1 := by
    decide
  obtain ⟨heading, rows, -, -, shown, -, length, same⟩ :=
    sheet_rows twoLinedValueSource twoLinedValue reads
  rw [feeds] at length
  refine ⟨reads, heading, rows, shown, length, fun sameLines => ?_⟩
  rw [valueFeeds_eq_zero_iff.mpr (same.mp sameLines)] at feeds
  cases feeds

/-- The row of the value is two lines, one more than the sheet should have. -/
theorem value_breaks_row :
    read twoLinedValueSource = .ok twoLinedValue ∧
      (Text.lines (sheet twoLinedValue.symbols).toList).length ≠
        twoLinedValue.symbols.size + 4 := by
  have reads : read twoLinedValueSource = .ok twoLinedValue := rfl
  have feeds : valueFeeds twoLinedValue.symbols = 1 := by
    decide
  refine ⟨reads, ?_⟩
  rw [length_lines_sheet (isOrdered_of_read reads), feeds]
  exact Nat.succ_ne_self _

end Program

end Coprocessor
