import Coprocessor.SExpr.Token

namespace Coprocessor.SExpr

/-!
# Reading S-expressions

A text is read as exactly one S-expression. Reading fails at the end of the text
if the expression is not complete there, and at the first token behind a
complete expression if there is one. A closing parenthesis where an expression
should start counts as such a token.
-/

/--
Why a text is not one S-expression; a trailing token carries its byte offset.
-/
inductive ReadFault where
  | incomplete
  | trailing (offset : Nat)
  deriving Repr, DecidableEq

/-- A complete expression, unless a token follows it. -/
def complete
    (expression : SExpr) :
    List Token → Except ReadFault SExpr
  | [] => .ok expression
  | token :: _ => .error (.trailing token.offset)

/--
Assemble one expression from tokens.

The frames are the lists that are open, innermost first, each with its items so
far in reverse.
-/
def assemble :
    List (List SExpr) →
    List Token →
    Except ReadFault SExpr
  | _, [] => .error .incomplete
  | frames, ⟨offset, lexeme⟩ :: rest =>
      match lexeme, frames with
      | .unterminated, _ => .error .incomplete
      | .leftParen, _ => assemble ([] :: frames) rest
      | .atom value, [] => complete (.atom value) rest
      | .atom value, items :: outer =>
          assemble ((.atom value :: items) :: outer) rest
      | .rightParen, [] => .error (.trailing offset)
      | .rightParen, [items] => complete (.list items.reverse) rest
      | .rightParen, items :: next :: outer =>
          assemble ((.list items.reverse :: next) :: outer) rest

/-- Read a text as one S-expression. -/
def readChars (characters : List Char) : Except ReadFault SExpr :=
  assemble [] (tokens characters)

/-- A line, counted from one, and a column. -/
structure Position where
  line : Nat
  column : Int
  deriving Repr, DecidableEq

/--
Move over one character: a line feed starts a new line, before its first column.
-/
def Position.advance
    (position : Position)
    (character : Char) :
    Position :=
  if character = '\n' then
    ⟨position.line + 1, -1⟩
  else
    ⟨position.line, position.column + 1⟩

/--
The position shown for an offset.

The offset counts bytes, yet it is spent on as many characters, and one more is
passed; in a text with wide characters the position shown lies behind the place
that is meant, at most at the end of the text.
-/
def Position.ofOffset
    (characters : List Char)
    (offset : Nat) :
    Position :=
  (characters.take (offset + 1)).foldl Position.advance ⟨1, -1⟩

/-- The text of a position; a column before the first one is shown as zero. -/
def Position.render (position : Position) : String :=
  toString position.line ++ ":" ++ toString position.column.toNat

/-- The text of a fault met in the given characters. -/
def ReadFault.message
    (characters : List Char) :
    ReadFault → String
  | .incomplete =>
      let offset := (String.ofList characters).utf8ByteSize
      (Position.ofOffset characters offset).render ++ ": unexpected eof"
  | .trailing offset =>
      (Position.ofOffset characters offset).render ++
        ": unrecognized post-s-expression data"

end Coprocessor.SExpr
