import Coprocessor.Text.Blank

namespace Coprocessor

/-!
# Symbols

A symbol is a declared variable or constant with an optional type and an
optional value. A type is named by a word in any ASCII letter case.
-/

/-- The type of a symbol. -/
inductive SymbolType where
  | integer
  | float
  | string
  | integerConstant
  | floatConstant
  | stringConstant
  | identifier
  deriving Repr, DecidableEq

namespace SymbolType

/-- The type that a word in lower case names. -/
def ofLowerWord? : String → Option SymbolType
  | "int" | "integer" => some .integer
  | "float" => some .float
  | "string" => some .string
  | "int_const" | "int_cte" => some .integerConstant
  | "float_const" | "float_cte" => some .floatConstant
  | "string_const" | "string_cte" => some .stringConstant
  | "id" | "identifier" => some .identifier
  | _ => none

/--
The ASCII letters of a word in lower case, all other characters as they are.
-/
def lowerWord (word : String) : String :=
  String.ofList (word.toList.map Char.toLower)

/--
The type that a word names; a word that names none is handed back in lower case.
-/
def ofWord (word : String) : Except String SymbolType :=
  match ofLowerWord? (lowerWord word) with
  | some type => .ok type
  | none => .error (lowerWord word)

/-- The name of a type in the symbol sheet. -/
def title : SymbolType → String
  | .integer => "Int"
  | .float => "Float"
  | .string => "String"
  | .integerConstant => "INT_CTE"
  | .floatConstant => "FLOAT_CTE"
  | .stringConstant => "STRING_CTE"
  | .identifier => "IDENTIFIER"

end SymbolType

/-- A declared name with what is known of it. -/
structure Symbol where
  name : String
  type : Option SymbolType
  value : Option String
  length : Option Nat
  deriving Repr, DecidableEq

namespace Symbol

/-- A symbol of which only the name is known. -/
def ofName (name : String) : Symbol :=
  ⟨name, none, none, none⟩

/-- Set the type. -/
def withType
    (symbol : Symbol)
    (type : SymbolType) :
    Symbol :=
  { symbol with type := some type }

/-- Set the value, and the length to its number of characters. -/
def withValue
    (symbol : Symbol)
    (value : String) :
    Symbol :=
  { symbol with value := some value, length := some value.length }

/-- The type, where a symbol without one counts as a float. -/
def effectiveType (symbol : Symbol) : SymbolType :=
  symbol.type.getD .float

/-- The name under which a variable is stored: its blanks are underscores. -/
def storedName (name : String) : String :=
  Text.underscored name

end Symbol

end Coprocessor
