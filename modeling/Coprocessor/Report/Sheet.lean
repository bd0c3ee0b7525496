import Coprocessor.Symbol.Table
import Coprocessor.Text.Column

namespace Coprocessor.Report

/-!
# Symbol sheet

A table of symbols with a border and a heading, one row for each symbol in the
order of the table. What is not known of a symbol leaves its cell empty.
-/

/-- The four cells of a row. -/
structure SheetRow where
  name : String
  type : String
  value : String
  length : String
  deriving Repr, DecidableEq

/-- The widths of the four columns. -/
def sheetWidths : List Nat :=
  [32, 12, 32, 8]

/-- The heading. -/
def sheetHeading : SheetRow :=
  ⟨"NAME", "TYPE", "VALUE", "LENGTH"⟩

/-- The row of a symbol. -/
def SheetRow.ofSymbol (symbol : Symbol) : SheetRow :=
  { name := symbol.name
    type := (symbol.type.map SymbolType.title).getD ""
    value := symbol.value.getD ""
    length := (symbol.length.map toString).getD "" }

/-- The cells of a row in order. -/
def SheetRow.cells (row : SheetRow) : List String :=
  [row.name, row.type, row.value, row.length]

/-- The text of a row. -/
def SheetRow.render (row : SheetRow) : String :=
  "| " ++ String.intercalate " | "
    (List.zipWith Text.padRight sheetWidths row.cells) ++ " |"

/-- The line above, between and below the rows. -/
def sheetBorder : String :=
  "+" ++ String.join (sheetWidths.map fun width =>
    String.ofList (List.replicate (width + 2) '-') ++ "+")

/-- The lines of the sheet. -/
def sheetLines (table : Symbol.Table) : List String :=
  [sheetBorder, sheetHeading.render, sheetBorder] ++
    table.symbols.map (fun symbol => (SheetRow.ofSymbol symbol).render) ++
    [sheetBorder]

/-- The sheet of a table. -/
def sheet (table : Symbol.Table) : String :=
  String.join ((sheetLines table).map (· ++ "\n"))

end Coprocessor.Report
