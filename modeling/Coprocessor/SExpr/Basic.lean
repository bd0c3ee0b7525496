import Coprocessor.Decimal.Shortest
import Coprocessor.Text.Blank

namespace Coprocessor

/-!
# S-expressions

An S-expression is an atom or a list. A bare word is an integer if it reads as
one that fits in 64 bits, a double if it reads as a number, and a text
otherwise; a quoted atom is always a text. Rendering quotes exactly the texts
that would not read back as the same text for their blanks, quotes or looks.
-/

/-- An atom of an S-expression. -/
inductive Atom where
  | integer (value : Int)
  | real (value : Decimal.Binary64)
  | text (content : String)
  deriving Repr, DecidableEq

namespace Atom

/-- The number that a word reads as, if it reads as one. -/
def number? (word : List Char) : Option Atom :=
  match Decimal.readInteger? word with
  | some value => some (.integer value)
  | none => (Decimal.Binary64.read? word).map .real

/-- The atom that a bare word stands for. -/
def ofWord (word : List Char) : Atom :=
  (number? word).getD (.text (String.ofList word))

/-- The content of an atom as text, a number in its canonical writing. -/
def content : Atom → String
  | .integer value => toString value
  | .real value => value.render
  | .text content => content

/--
A text between double quotes, with a backslash before each quote and backslash.
-/
def quote (content : List Char) : List Char :=
  '"' :: content.flatMap (fun character =>
    if character = '"' ∨ character = '\\' then
      ['\\', character]
    else
      [character]) ++ ['"']

/--
Whether a text is shown in quotes: it holds a quote or a blank, or
looks like a number.
-/
def needsQuotes (content : List Char) : Bool :=
  content.contains '"' || content.any Text.isBlank || (number? content).isSome

/-- How an atom is shown. -/
def render : Atom → String
  | .text content =>
      if needsQuotes content.toList then
        String.ofList (quote content.toList)
      else
        content
  | atom => atom.content

end Atom

/-- An atom, or a list of S-expressions. -/
inductive SExpr where
  | atom (value : Atom)
  | list (items : List SExpr)
  deriving Repr

namespace SExpr

mutual

/--
How an S-expression is shown: the items of a list stand between parentheses.
-/
def render : SExpr → String
  | .atom value => value.render
  | .list items => "(" ++ renderItems items ++ ")"

/-- Items in order, with one space between two of them. -/
def renderItems : List SExpr → String
  | [] => ""
  | [item] => item.render
  | item :: rest => item.render ++ " " ++ renderItems rest

end

end SExpr

end Coprocessor
