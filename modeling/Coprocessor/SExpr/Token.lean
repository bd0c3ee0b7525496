import Coprocessor.SExpr.Basic

namespace Coprocessor.SExpr

/-!
# Tokens of S-expressions

A text is cut into parentheses, bare words and quoted atoms. Blanks and
comments, which run from a semicolon to the end of the line, separate tokens. A
bare word ends at a blank, a parenthesis or a semicolon, and a quote inside it
is an ordinary character. In a quoted atom a backslash makes a quote or a
backslash ordinary and stands for itself before any other character. Each token
carries the byte offset at which it starts.
-/

/-- What a token is. A quoted atom that the text ends in is `unterminated`. -/
inductive Lexeme where
  | leftParen
  | rightParen
  | atom (value : Atom)
  | unterminated
  deriving Repr, DecidableEq

/-- A lexeme and the byte offset at which it starts. -/
structure Token where
  offset : Nat
  lexeme : Lexeme
  deriving Repr, DecidableEq

/--
What the scanner is inside of; the characters of an atom so far are
kept in reverse.
-/
inductive ScanState where
  | between
  | comment
  | word (start : Nat) (reversed : List Char)
  | quoted (start : Nat) (reversed : List Char)
  | escaped (start : Nat) (reversed : List Char)
  deriving Repr, DecidableEq

namespace ScanState

/--
The tokens that end, and the state that follows, at a character between tokens.
-/
def enter
    (offset : Nat)
    (character : Char) :
    List Token × ScanState :=
  if character = '(' then
    ([⟨offset, .leftParen⟩], .between)
  else if character = ')' then
    ([⟨offset, .rightParen⟩], .between)
  else if character = '"' then
    ([], .quoted offset [])
  else if character = ';' then
    ([], .comment)
  else if Text.isBlank character then
    ([], .between)
  else
    ([], .word offset [character])

/-- Whether a character ends a bare word. -/
def endsWord (character : Char) : Bool :=
  Text.isBlank character || character == '(' || character == ')' ||
    character == ';'

/-- The token of a bare word whose characters are given in reverse. -/
def wordToken
    (start : Nat)
    (reversed : List Char) :
    Token :=
  ⟨start, .atom (.ofWord reversed.reverse)⟩

/-- The token of a quoted atom whose characters are given in reverse. -/
def quotedToken
    (start : Nat)
    (reversed : List Char) :
    Token :=
  ⟨start, .atom (.text (String.ofList reversed.reverse))⟩

/-- The tokens that end, and the state that follows, at a character. -/
def step
    (offset : Nat)
    (character : Char) :
    ScanState → List Token × ScanState
  | .between => enter offset character
  | .comment => ([], if character = '\n' then .between else .comment)
  | .word start reversed =>
      if endsWord character then
        let next := enter offset character
        (wordToken start reversed :: next.1, next.2)
      else
        ([], .word start (character :: reversed))
  | .quoted start reversed =>
      if character = '"' then
        ([quotedToken start reversed], .between)
      else if character = '\\' then
        ([], .escaped start reversed)
      else
        ([], .quoted start (character :: reversed))
  | .escaped start reversed =>
      if character = '"' ∨ character = '\\' then
        ([], .quoted start (character :: reversed))
      else
        ([], .quoted start (character :: '\\' :: reversed))

/-- The tokens that end where the text ends. -/
def finish : ScanState → List Token
  | .between | .comment => []
  | .word start reversed => [wordToken start reversed]
  | .quoted start _ | .escaped start _ => [⟨start, .unterminated⟩]

/-- Scan the characters from an offset on. -/
def scan
    (state : ScanState)
    (offset : Nat) :
    List Char → List Token
  | [] => state.finish
  | character :: rest =>
      let next := state.step offset character
      next.1 ++ scan next.2 (offset + character.utf8Size) rest

end ScanState

/-- The tokens of a text. -/
def tokens (characters : List Char) : List Token :=
  ScanState.between.scan 0 characters

end Coprocessor.SExpr
