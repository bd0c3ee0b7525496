namespace Coprocessor.Text

/-!
# Columns

Text set flush left in a column. The width of a text is its number of
characters, and a text that is too wide is kept whole.
-/

/-- A text followed by as many spaces as it falls short of the width. -/
def padRight
    (width : Nat)
    (text : String) :
    String :=
  text ++ String.ofList (List.replicate (width - text.length) ' ')

end Coprocessor.Text
