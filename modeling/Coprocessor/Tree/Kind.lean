import Coprocessor.Decimal.Numeral
import Coprocessor.Text.Blank

namespace Coprocessor

/-!
# Kinds of nodes

The tag of a node alone decides what the node is. The tags of statements and
operators are fixed words and signs; of the other tags, those that are finite
numerals between optional blanks are literals, and all the rest name variables.
-/

/-- The arithmetic operations that one coprocessor instruction carries out. -/
inductive Arithmetic where
  | add
  | subtract
  | multiply
  | divide
  deriving Repr, DecidableEq

/-- The sign of an operation in the source. -/
def Arithmetic.sign : Arithmetic → String
  | .add => "+"
  | .subtract => "-"
  | .multiply => "*"
  | .divide => "/"

/-- The relations that a comparison tests. -/
inductive Relation where
  | equal
  | notEqual
  | less
  | greater
  | lessOrEqual
  | greaterOrEqual
  deriving Repr, DecidableEq

/-- The sign of a relation in the source. -/
def Relation.sign : Relation → String
  | .equal => "=="
  | .notEqual => "!="
  | .less => "<"
  | .greater => ">"
  | .lessOrEqual => "<="
  | .greaterOrEqual => ">="

/-- What a node is. `alternatives` holds the two bodies of a conditional. -/
inductive Kind where
  | sequence
  | conditional
  | loop
  | assignment
  | alternatives
  | arithmetic (operation : Arithmetic)
  | modulo
  | comparison (relation : Relation)
  | literal
  | identifier
  deriving Repr, DecidableEq

/-- Whether a tag, apart from blanks around it, is a finite numeral. -/
def isLiteral (tag : String) : Bool :=
  match Decimal.Numeral.read? (Text.trimChars tag.toList) with
  | some numeral => numeral.isFinite
  | none => false

/-- The kind of the nodes that carry a tag. -/
def Kind.ofTag (tag : String) : Kind :=
  match tag with
  | ";" => .sequence
  | "if" => .conditional
  | "while" => .loop
  | "=" => .assignment
  | "cuerpo" => .alternatives
  | "+" => .arithmetic .add
  | "-" => .arithmetic .subtract
  | "*" => .arithmetic .multiply
  | "/" => .arithmetic .divide
  | "%" => .modulo
  | "==" => .comparison .equal
  | "!=" => .comparison .notEqual
  | "<" => .comparison .less
  | ">" => .comparison .greater
  | "<=" => .comparison .lessOrEqual
  | ">=" => .comparison .greaterOrEqual
  | _ => if isLiteral tag then .literal else .identifier

end Coprocessor
