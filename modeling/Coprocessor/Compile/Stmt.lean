import Coprocessor.Compile.Expr
import Coprocessor.Language.Stmt

namespace Coprocessor.Compile

open Assembly

/-!
# Compiling statements

A statement leaves the register stack as it finds it. Conditions are tested
against zero. The labels of a conditional are numbered after its condition is
compiled, those of a loop before, and a loop jumps back to its condition.
-/

/-- Jump to a label if the number in a cell is zero. -/
def jumpIfZero
    (cell : Cell)
    (target : Label) :
    List Line :=
  [.code (.load cell)] ++ flagsOfTop ++
    [.code .discard, .code (.jump .equal target)]

/-- The code of a conditional up to its body. -/
def conditionalHead
    (cell : Cell)
    (number : Nat) :
    List Line :=
  [.blank, .comment "--- IF statement ---"] ++
    jumpIfZero cell ⟨.elseBranch, number⟩

/-- The code of a loop up to its condition. -/
def loopHead (number : Nat) : List Line :=
  [.blank, .comment "--- WHILE statement ---", .label ⟨.loopStart, number⟩]

/-- The code of a loop behind its body. -/
def loopTail (number : Nat) : List Line :=
  [.code (.jump .always ⟨.loopStart, number⟩), .label ⟨.endOfLoop, number⟩]

/-- Copy a cell to a variable. -/
def assignCode
    (value : Cell)
    (target : String) :
    List Line :=
  [.instr (.load value) 4,
    .instr (.store (.variable (Symbol.storedName target))) 4]

/-- Compile a statement, starting from counters. -/
def statement
    (options : Options) :
    Stmt → Counters → Fragment
  | .skip, counters => ⟨[], [], counters⟩
  | .sequence first second, counters =>
      let before := statement options first counters
      let after := statement options second before.next
      ⟨before.data ++ after.data, before.code ++ after.code, after.next⟩
  | .conditional condition body, counters =>
      let test := expression options condition counters
      let number := test.next.labels + 1
      let taken := statement options body test.next.addLabel
      { data := test.data ++ taken.data
        code := test.code ++ conditionalHead test.cell number ++ taken.code ++
          [.label ⟨.elseBranch, number⟩, .label ⟨.endOfConditional, number⟩]
        next := taken.next }
  | .choice condition onTrue onFalse, counters =>
      let test := expression options condition counters
      let number := test.next.labels + 1
      let taken := statement options onTrue test.next.addLabel
      let other := statement options onFalse taken.next
      { data := test.data ++ taken.data ++ other.data
        code := test.code ++ conditionalHead test.cell number ++ taken.code ++
          [.code (.jump .always ⟨.endOfConditional, number⟩),
            .label ⟨.elseBranch, number⟩] ++
          other.code ++ [.label ⟨.endOfConditional, number⟩]
        next := other.next }
  | .loop condition body, counters =>
      let number := counters.labels + 1
      let test := expression options condition counters.addLabel
      let pass := statement options body test.next
      { data := test.data ++ pass.data
        code :=
          loopHead number ++ test.code ++
            jumpIfZero test.cell ⟨.endOfLoop, number⟩ ++
          pass.code ++ loopTail number
        next := pass.next }
  | .assignment target value, counters =>
      let result := expression options value counters
      { data := result.data
        code := [.blank, .comment "--- Assignment ---"] ++ result.code ++
          assignCode result.cell target
        next := result.next }
  | .evaluation value, counters =>
      (expression options value counters).toFragment

end Coprocessor.Compile
