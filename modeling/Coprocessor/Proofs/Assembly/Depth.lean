import Coprocessor.Proofs.Assembly.Flow

namespace Coprocessor.Assembly

/-!
# The depth of the register stack

Code is checked in the order of its lines: no instruction takes a register that
has not been pushed, two registers are enough, and at every label and at every
jump the stack has the depth that belongs to the landmark. The last point makes
the depth at a line independent of the way to it, since a jump and its target
agree on the depth.
-/

/-- Lines of the code and the position where they start. -/
structure Stretch where
  start : Nat
  lines : List Line
  deriving Repr, DecidableEq

/--
The depth of the register stack after an instruction, unless it
lacks a register.
-/
def Instr.depthAfter : Instr → Nat → Option Nat
  | .load _, depth | .loadInteger _, depth | .loadZero, depth
  | .loadOne, depth =>
      some (depth + 1)
  | .store _, depth + 1 | .storeInteger _, depth + 1 | .discard, depth + 1 =>
      some depth
  | .store _, 0 | .storeInteger _, 0 | .discard, 0 => none
  | .combine _, depth + 2 => some (depth + 2)
  | .combine _, _ => none
  | .subtractCell _, depth + 1 | .test, depth + 1 => some (depth + 1)
  | .subtractCell _, 0 | .test, 0 => none
  | .storeStatus, depth | .setFlags, depth | .storeControl _, depth
  | .loadControl _, depth
  | .loadAccumulator _, depth | .storeAccumulator _, depth
  | .maskAccumulator _, depth
  | .raiseAccumulator _, depth | .jump _ _, depth => some depth

/--
The depth of the register stack after a line; only instructions change it.
-/
def Line.depthAfter
    (depth : Nat) :
    Line → Option Nat
  | .instr code _ => code.depthAfter depth
  | .blank | .comment _ | .remark _ | .directive _ | .declare _ | .label _ =>
      some depth

/-- The depth of the register stack after lines passed one after the other. -/
def depthAfter
    (depth : Nat)
    (lines : List Line) :
    Option Nat :=
  lines.foldlM Line.depthAfter depth

/--
The depth at a landmark: a comparison keeps its result on the stack,
nothing else does.
-/
def Landmark.depth : Landmark → Nat
  | .comparisonHolds | .endOfComparison => 1
  | .elseBranch | .endOfConditional | .loopStart | .endOfLoop => 0

/--
Whether a label or a jump may stand at a depth; other lines may stand at any.
-/
def Line.fits
    (depth : Nat)
    (line : Line) :
    Bool :=
  match line.control? with
  | none => true
  | some control => control.target.landmark.depth == depth

/--
Pass a line that stands at a depth within the bound and that fits its landmark.
-/
def Line.levelAfter
    (depth : Nat)
    (line : Line) :
    Option Nat :=
  if depth ≤ 2 && line.fits depth then line.depthAfter depth else none

/-- The depth after lines that are checked one after the other. -/
def levelAfter
    (depth : Nat) :
    List Line → Option Nat
  | [] => some depth
  | line :: rest =>
      match line.levelAfter depth with
      | none => none
      | some next => levelAfter next rest

@[simp] theorem levelAfter_append
    (depth : Nat)
    (first second : List Line) :
    levelAfter depth (first ++ second) =
      (levelAfter depth first).bind fun middle => levelAfter middle second := by
  induction first generalizing depth with
  | nil =>
      rfl
  | cons line rest inductionHypothesis =>
      rw [List.cons_append, levelAfter, levelAfter]
      cases line.levelAfter depth with
      | none =>
          rfl
      | some next =>
          exact inductionHypothesis next

theorem Line.levelAfter_eq_some
    {line : Line}
    {depth next : Nat} :
    line.levelAfter depth = some next ↔
      depth ≤ 2 ∧ line.fits depth ∧ line.depthAfter depth = some next := by
  simp [Line.levelAfter, and_assoc]

theorem Line.eq_of_fits
    {line : Line}
    {control : Control}
    {depth : Nat}
    (isControl : line.control? = some control)
    (fits : line.fits depth) :
    control.target.landmark.depth = depth := by
  rw [Line.fits, isControl] at fits
  exact eq_of_beq fits

/-- The depth in front of a position, counted in the order of the lines. -/
def depthAt
    (code : List Line)
    (position : Nat) :
    Nat :=
  (levelAfter 0 (code.take position)).getD 0

@[simp] theorem depthAt_zero (code : List Line) : depthAt code 0 = 0 :=
  rfl

section Level

variable
    {code : List Line}
    {final : Nat}
    (level : levelAfter 0 code = some final)

include level

theorem levelAfter_take (position : Nat) :
    levelAfter 0 (code.take position) = some (depthAt code position) := by
  have whole := level
  rw [← List.take_append_drop position code, levelAfter_append] at whole
  obtain ⟨depth, front, -⟩ := Option.bind_eq_some_iff.mp whole
  rw [depthAt, front, Option.getD_some]

/--
Lines that stand in checked code pass the check at the depth of their position.
-/
theorem levelAfter_placed
    {lines : List Line}
    {position : Nat}
    (placed : Placed code position lines) :
    levelAfter (depthAt code position) lines =
      some (depthAt code (position + lines.length)) := by
  obtain ⟨rest, shape⟩ := placed
  have split :
      code.take (position + lines.length) = code.take position ++ lines := by
    rw [List.take_add, ← shape, List.take_left]
  have both := levelAfter_take level (position + lines.length)
  rwa [split, levelAfter_append, levelAfter_take level,
    Option.bind_some] at both

/-- Lines that lead from an empty stack to some depth do so where they stand. -/
theorem depthAt_behind
    {lines : List Line}
    {position depth : Nat}
    (placed : Placed code position lines)
    (empty : depthAt code position = 0)
    (leads : levelAfter 0 lines = some depth) :
    depthAt code (position + lines.length) = depth := by
  have passed := levelAfter_placed level placed
  rw [empty, leads] at passed
  exact (Option.some.inj passed).symm

theorem levelAfter_line
    {line : Line}
    {position : Nat}
    (lineAt : code[position]? = some line) :
    line.levelAfter (depthAt code position) =
      some (depthAt code (position + 1)) := by
  have placed : Placed code position [line] := by
    obtain ⟨inside, same⟩ := List.getElem?_eq_some_iff.mp lineAt
    exact ⟨code.drop (position + 1),
      by rw [List.drop_eq_getElem_cons inside, same]; rfl⟩
  have passed := levelAfter_placed level placed
  rw [levelAfter] at passed
  cases next : line.levelAfter (depthAt code position) with
  | none =>
      rw [next] at passed
      contradiction
  | some depth =>
      rw [next] at passed
      exact passed

theorem depthAfter_line
    {line : Line}
    {position : Nat}
    (lineAt : code[position]? = some line) :
    line.depthAfter (depthAt code position) =
      some (depthAt code (position + 1)) :=
  (Line.levelAfter_eq_some.mp (levelAfter_line level lineAt)).2.2

/-- A label and a jump stand at the depth of their landmark. -/
theorem depthAt_control
    {line : Line}
    {control : Control}
    {position : Nat}
    (lineAt : code[position]? = some line)
    (isControl : line.control? = some control) :
    depthAt code position = control.target.landmark.depth := by
  obtain ⟨-, fits, -⟩ :=
    Line.levelAfter_eq_some.mp (levelAfter_line level lineAt)
  exact (Line.eq_of_fits isControl fits).symm

theorem depthAt_le
    (small : final ≤ 2)
    (position : Nat) :
    depthAt code position ≤ 2 := by
  cases lineAt : code[position]? with
  | none =>
      have atEnd : code.take position = code :=
        List.take_of_length_le (List.getElem?_eq_none_iff.mp lineAt)
      rw [depthAt, atEnd, level]
      exact small
  | some line =>
      exact (Line.levelAfter_eq_some.mp (levelAfter_line level lineAt)).1

end Level

/-- Jumps do not change the depth. -/
theorem Line.depthAfter_of_jump
    {line : Line}
    {condition : Condition}
    {target : Label}
    (isJump : line.control? = some (.jump condition target))
    (depth : Nat) :
    line.depthAfter depth = some depth := by
  cases line with
  | instr code column =>
      cases code <;> simp_all [Line.control?, Line.depthAfter, Instr.depthAfter]
  | _ =>
      simp [Line.control?] at isJump

/-- A walk goes on at the next line or at the target of a jump. -/
theorem successors_cases
    {code : List Line}
    {line : Line}
    {position following : Nat}
    (lineAt : code[position]? = some line)
    (goesOn : following ∈ successors code position) :
    following = position + 1 ∨
      ∃ condition target,
        line.control? = some (.jump condition target) ∧
          labelPosition? code target = some following := by
  rw [successors, lineAt] at goesOn
  dsimp only at goesOn
  split at goesOn
  case h_1 target isJump =>
      exact .inr ⟨_, target, isJump, Option.mem_toList.mp goesOn⟩
  case h_2 condition target notAlways isJump =>
      rcases List.mem_cons.mp goesOn with next | resolved
      · exact .inl next
      · exact .inr ⟨_, target, isJump, Option.mem_toList.mp resolved⟩
  case h_3 =>
      exact .inl (List.mem_singleton.mp goesOn)

/-- Along every walk the stack has the depth that belongs to the position. -/
theorem depthAfter_walk
    {code passed : List Line}
    {final position : Nat}
    (level : levelAfter 0 code = some final)
    (walk : Walk code passed position) :
    depthAfter 0 passed = some (depthAt code position) := by
  induction walk with
  | start =>
      rfl
  | @next passed position following line walk lineAt goesOn
      inductionHypothesis =>
      have extended :
          depthAfter 0 (passed ++ [line]) =
            line.depthAfter (depthAt code position) := by
        rw [depthAfter, List.foldlM_append, ← depthAfter, inductionHypothesis]
        simp
      rw [extended]
      rcases successors_cases lineAt goesOn with
        rfl | ⟨condition, target, isJump, resolved⟩
      · exact depthAfter_line level lineAt
      · have landed : depthAt code following = target.landmark.depth :=
          depthAt_control level (label_of_labelPosition? resolved) rfl
        have left : depthAt code position = target.landmark.depth :=
          depthAt_control level lineAt isJump
        rw [Line.depthAfter_of_jump isJump, left, landed]

/--
A stretch stands in the code, and a property of positions holds at
both its ends.
-/
def Around
    (code : List Line)
    (holds : Nat → Prop)
    (stretch : Stretch) :
    Prop :=
  Placed code stretch.start stretch.lines ∧
    holds stretch.start ∧ holds (stretch.start + stretch.lines.length)

/-- A stretch stands in the code, and the stack is empty at both its ends. -/
def EmptyAround
    (code : List Line)
    (depth : Nat → Nat)
    (stretch : Stretch) :
    Prop :=
  Placed code stretch.start stretch.lines ∧
    depth stretch.start = 0 ∧ depth (stretch.start + stretch.lines.length) = 0

/--
The register stack is used with discipline: every line is reached, and on every
way to it the stack has the same depth. The depth is that of the landmark at
labels, never exceeds two, is sufficient for every instruction, and is zero at
both ends of the given stretches of code.
-/
structure Disciplined
    (code : List Line)
    (stretches : List Stretch)
    (depth : Nat → Nat) :
    Prop where
  reached :
    ∀ position ≤ code.length, ∃ passed, Walk code passed position
  sameOnEveryWay :
    ∀ passed position, Walk code passed position →
      depthAfter 0 passed = some (depth position)
  sufficient :
    ∀ (position : Nat) (line : Line), code[position]? = some line →
      (line.depthAfter (depth position)).isSome
  bounded :
    ∀ position, depth position ≤ 2
  atLabels :
    ∀ (position : Nat) (label : Label), code[position]? = some (.label label) →
      depth position = label.landmark.depth
  emptyAround :
    ∀ stretch ∈ stretches, EmptyAround code depth stretch

/--
Behind a position stands a label that an earlier jump with a condition leads to.
-/
def ResumedAt
    (code : List Line)
    (position : Nat) :
    Prop :=
  ∃ earlier condition label,
    earlier < position ∧ condition ≠ .always ∧
      code[earlier]?.bind Line.control? = some (.jump condition label) ∧
        code[position + 1]? = some (.label label)

theorem ResumedAt.append
    {first : List Line}
    {position : Nat}
    (resumed : ResumedAt first position)
    (second : List Line) :
    ResumedAt (first ++ second) position := by
  obtain ⟨earlier, condition, label, before, conditional, fromJump, labelAt⟩ :=
    resumed
  have inside : position + 1 < first.length :=
    (List.getElem?_eq_some_iff.mp labelAt).1
  refine ⟨earlier, condition, label, before, conditional, ?_, ?_⟩
  · rw [List.getElem?_append_left (by omega), fromJump]
  · rw [List.getElem?_append_left inside, labelAt]

/--
The code is resumed behind every jump without a condition, so no
line is out of reach.
-/
def Resumed (code : List Line) : Prop :=
  ∀ position target,
    code[position]?.bind Line.control? = some (.jump .always target) →
      ResumedAt code position

namespace Resumed

theorem of_conditional
    {code : List Line}
    (conditional :
      ∀ line ∈ code, ∀ target, line.control? ≠ some (.jump .always target)) :
    Resumed code := by
  intro position target jumpAt
  obtain ⟨line, lineAt, isJump⟩ := Option.bind_eq_some_iff.mp jumpAt
  exact absurd isJump (conditional line (List.mem_of_getElem? lineAt) target)

theorem append
    {first second : List Line}
    (firstResumed : Resumed first)
    (secondResumed : Resumed second) :
    Resumed (first ++ second) := by
  intro position target jumpAt
  by_cases inFirst : position < first.length
  · rw [List.getElem?_append_left inFirst] at jumpAt
    exact (firstResumed position target jumpAt).append second
  · rw [List.getElem?_append_right (by omega)] at jumpAt
    obtain ⟨earlier, condition, label, before, conditional, fromJump,
      labelAt⟩ :=
      secondResumed _ target jumpAt
    refine ⟨first.length + earlier, condition, label, by omega,
      conditional, ?_, ?_⟩
    · rw [List.getElem?_append_right (by omega), Nat.add_sub_cancel_left,
        fromJump]
    · rw [List.getElem?_append_right (by omega), ← labelAt]
      congr 1
      omega

/-- A jump may be added in front of a label that a line further up leads to. -/
theorem jump
    {code : List Line}
    {line : Line}
    {condition : Condition}
    {label : Label}
    (resumed : Resumed code)
    (member : line ∈ code)
    (isJump : line.control? = some (.jump condition label))
    (conditional : condition ≠ .always)
    (target : Label) :
    Resumed (code ++ [.code (.jump .always target), .label label]) := by
  obtain ⟨earlier, earlierAt⟩ := List.mem_iff_getElem?.mp member
  have before : earlier < code.length :=
    (List.getElem?_eq_some_iff.mp earlierAt).1
  intro position jumpTarget jumpAt
  rcases Nat.lt_trichotomy position code.length with inside | rfl | behind
  · rw [List.getElem?_append_left inside] at jumpAt
    exact (resumed position jumpTarget jumpAt).append _
  · refine ⟨earlier, condition, label, before, conditional, ?_, ?_⟩
    · rw [List.getElem?_append_left before, earlierAt, Option.bind_some, isJump]
    · simp
  · obtain ⟨offset, rfl⟩ : ∃ offset, position = code.length + (offset + 1) :=
      ⟨position - code.length - 1, by omega⟩
    rw [List.getElem?_append_right (by omega),
      Nat.add_sub_cancel_left] at jumpAt
    cases offset <;> simp [Line.control?] at jumpAt

/-- Every position of resumed code is reached by a walk. -/
theorem reachable
    {code : List Line}
    (resumed : Resumed code)
    (unique : (labels code).Nodup)
    {position : Nat}
    (inside : position ≤ code.length) :
    ∃ passed, Walk code passed position := by
  induction position using Nat.strong_induction_on with
  | h position inductionHypothesis =>
      cases position with
      | zero =>
          exact ⟨[], .start⟩
      | succ previous =>
          have lineAt : code[previous]? = some (code.get ⟨previous, inside⟩) :=
            List.getElem?_eq_getElem inside
          by_cases always :
              ∃ target,
                code[previous]?.bind Line.control? = some (.jump .always target)
          · obtain ⟨target, jumpAt⟩ := always
            obtain ⟨earlier, condition, label, before, conditional, fromJump,
              labelAt⟩ :=
              resumed previous target jumpAt
            obtain ⟨passed, walk⟩ :=
              inductionHypothesis earlier (by omega) (by omega)
            obtain ⟨line, earlierAt, isJump⟩ :=
              Option.bind_eq_some_iff.mp fromJump
            refine ⟨passed ++ [line], walk.next earlierAt ?_⟩
            exact target_mem_successors unique earlierAt isJump labelAt
          · obtain ⟨passed, walk⟩ :=
              inductionHypothesis previous (by omega) (by omega)
            refine ⟨passed ++ [_], walk.next lineAt ?_⟩
            simp only [lineAt, Option.bind_some, not_exists] at always
            exact next_mem_successors lineAt always

end Resumed

end Coprocessor.Assembly
