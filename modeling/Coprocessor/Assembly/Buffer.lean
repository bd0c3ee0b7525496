namespace Coprocessor.Assembly

/-!
# Buffers of fixed size

The text of a listing may be written to a buffer that cannot grow. It fits if
its bytes do, and a buffer of exactly its size is large enough.
-/

/-- Why a text cannot be written to a buffer. -/
inductive BufferFault where
  | full
  deriving Repr, DecidableEq

/-- The wording of a fault. -/
def BufferFault.message : BufferFault → String
  | .full => "write error: failed to write whole buffer"

/--
Write a text to a buffer of the given capacity; the result is the
number of bytes written.
-/
def fillBuffer
    (capacity : Nat)
    (text : String) :
    Except BufferFault Nat :=
  if text.utf8ByteSize ≤ capacity then
    .ok text.utf8ByteSize
  else
    .error .full

end Coprocessor.Assembly
