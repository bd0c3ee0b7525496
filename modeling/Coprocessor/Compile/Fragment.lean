import Coprocessor.Assembly.Line

namespace Coprocessor.Compile

open Assembly

/-!
# Fragments of a listing

Compiling a construct yields the declarations and the code that it adds to the
listing. Cells, labels and integer slots are numbered through the whole listing,
so a construct starts from the numbers used so far and hands on those used
after it.
-/

/-- How many cells, labels and integer slots have been numbered. -/
structure Counters where
  cells : Nat
  labels : Nat
  slots : Nat
  deriving Repr, DecidableEq

namespace Counters

/-- Nothing is numbered yet. -/
def start : Counters :=
  ⟨0, 0, 0⟩

/-- Number some more cells. -/
def addCells
    (counters : Counters)
    (count : Nat) :
    Counters :=
  { counters with cells := counters.cells + count }

/-- Number one more label. -/
def addLabel (counters : Counters) : Counters :=
  { counters with labels := counters.labels + 1 }

/-- Number one more integer slot. -/
def addSlot (counters : Counters) : Counters :=
  { counters with slots := counters.slots + 1 }

end Counters

/-- What a construct adds to the listing, and the counters after it. -/
structure Fragment where
  data : List Declaration
  code : List Line
  next : Counters
  deriving Repr, DecidableEq

/--
The fragment of an expression and the temporary that holds its value at the end.
-/
structure Operand extends Fragment where
  cell : Cell
  deriving Repr, DecidableEq

/-- The declaration of a temporary. -/
def declareTemporary (number : Nat) : Declaration :=
  ⟨.temporary number, .real "0.0"⟩

/-- The declaration of an integer slot. -/
def declareSlot (number : Nat) : Declaration :=
  ⟨.slot number, .integer⟩

/-- The declaration of a literal with its initial value. -/
def declareLiteral
    (number : Nat)
    (initial : String) :
    Declaration :=
  ⟨.literal number, .real initial⟩

end Coprocessor.Compile
