import Coprocessor.Symbol.Basic

namespace Coprocessor.Symbol

/-!
# Symbol tables

A table holds at most one symbol for each stored name and lists its symbols in
ascending order of their names, character by character. Every operation takes
names as written and looks them up by their stored form.
-/

/-- Symbols in ascending order of their names. -/
structure Table where
  symbols : List Symbol
  deriving Repr, DecidableEq

/--
Put a symbol in its place among symbols in ascending order, instead of
one of the same name.
-/
def place
    (symbol : Symbol) :
    List Symbol → List Symbol
  | [] => [symbol]
  | first :: rest =>
      if symbol.name < first.name then
        symbol :: first :: rest
      else if symbol.name = first.name then
        symbol :: rest
      else
        first :: place symbol rest

/-- A symbol that has been placed is found under its name. -/
theorem find?_place_self
    (symbol : Symbol)
    (symbols : List Symbol) :
    (place symbol symbols).find? (fun other => other.name == symbol.name) =
      some symbol := by
  induction symbols with
  | nil =>
      simp [place]
  | cons first rest inductionHypothesis =>
      by_cases smaller : symbol.name < first.name
      · simp [place, smaller]
      · by_cases same : symbol.name = first.name
        · simp [place, same]
        · simp [place, smaller, same, Ne.symm same, inductionHypothesis]

/-- Placing a symbol does not change what is found under another name. -/
theorem find?_place_of_ne
    {symbol : Symbol}
    {name : String}
    (symbols : List Symbol)
    (different : symbol.name ≠ name) :
    (place symbol symbols).find? (fun other => other.name == name) =
      symbols.find? (fun other => other.name == name) := by
  induction symbols with
  | nil =>
      simp [place, different]
  | cons first rest inductionHypothesis =>
      by_cases smaller : symbol.name < first.name
      · simp [place, smaller, different]
      · by_cases same : symbol.name = first.name
        · simp [place, same, same ▸ different]
        · simp only [place, smaller, same, ↓reduceIte, List.find?_cons,
            inductionHypothesis]

namespace Table

/-- A table without symbols. -/
def empty : Table :=
  ⟨[]⟩

/-- The number of symbols. -/
def size (table : Table) : Nat :=
  table.symbols.length

/-- The symbol of a name. -/
def get?
    (table : Table)
    (name : String) :
    Option Symbol :=
  table.symbols.find? fun symbol => symbol.name == storedName name

/-- Whether a name has a symbol. -/
def contains
    (table : Table)
    (name : String) :
    Bool :=
  (table.get? name).isSome

/--
Add a symbol under its stored name, instead of the one that had this name.
-/
def insert
    (table : Table)
    (symbol : Symbol) :
    Table :=
  ⟨place { symbol with name := storedName symbol.name } table.symbols⟩

/--
A symbol that has been inserted is found under its name, with the stored
form of that name.
-/
theorem get?_insert_self
    (table : Table)
    (symbol : Symbol) :
    (table.insert symbol).get? symbol.name =
      some { symbol with name := storedName symbol.name } :=
  find?_place_self { symbol with name := storedName symbol.name } table.symbols

/--
Inserting a symbol does not change what is found under another stored name.
-/
theorem get?_insert_of_ne
    {table : Table}
    {symbol : Symbol}
    {name : String}
    (different : storedName symbol.name ≠ storedName name) :
    (table.insert symbol).get? name = table.get? name :=
  find?_place_of_ne table.symbols different

/--
Set the type of the symbol of a name, and tell whether the name has a symbol. A
table without that name stays as it is.
-/
def setType
    (table : Table)
    (name : String)
    (type : SymbolType) :
    Table × Bool :=
  let typed := table.symbols.map fun symbol =>
    if symbol.name = storedName name then symbol.withType type else symbol
  (⟨typed⟩, table.contains name)

/-- Remove the symbol of a name, and hand it back. -/
def erase
    (table : Table)
    (name : String) :
    Table × Option Symbol :=
  let others :=
    table.symbols.filter fun symbol => symbol.name != storedName name
  (⟨others⟩, table.get? name)

/-- A name that has been erased has no symbol. -/
theorem get?_erase_self
    (table : Table)
    (name : String) :
    (table.erase name).1.get? name = none := by
  simp [get?, erase, List.find?_filter]

/-- Erasing a name does not change what is found under another stored name. -/
theorem get?_erase_of_ne
    {table : Table}
    {name other : String}
    (different : storedName name ≠ storedName other) :
    (table.erase name).1.get? other = table.get? other := by
  simp only [get?, erase, List.find?_filter]
  congr 1
  funext symbol
  by_cases same : symbol.name = storedName other
  · simp [same, Ne.symm different]
  · simp [same]

end Table

end Coprocessor.Symbol
