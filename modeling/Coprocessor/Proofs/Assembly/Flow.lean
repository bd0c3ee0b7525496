import Coprocessor.Proofs.Assembly.Names

namespace Coprocessor.Assembly

open List

/-!
# The flow of control

Lines are passed in their order, except where a jump leads to the line that
defines its target. A jump is resolved by the written name of its target. A walk
through the code takes either way at every jump with a condition, so that what
holds along all walks holds along all runs.
-/

/-- What a line has to do with labels: it defines one, or jumps to one. -/
inductive Control where
  | label (label : Label)
  | jump (condition : Condition) (target : Label)
  deriving Repr, DecidableEq

namespace Control

/-- The label that a line defines or jumps to. -/
def target : Control → Label
  | .label defined => defined
  | .jump _ target => target

/-- The number of the construct that a line belongs to. -/
def number (control : Control) : Nat :=
  control.target.number

end Control

namespace Line

/-- What a line has to do with labels, if anything. -/
def control? : Line → Option Control
  | .label defined => some (.label defined)
  | .instr (.jump condition target) _ => some (.jump condition target)
  | _ => none

/-- The label that a line defines. -/
def label? : Line → Option Label
  | .label defined => some defined
  | _ => none

/-- The number of the construct that a line mentions. -/
def number? (line : Line) : Option Nat :=
  line.control?.map Control.number

theorem label?_eq_some
    {line : Line}
    {label : Label} :
    line.label? = some label ↔ line = .label label := by
  cases line <;> simp [label?]

end Line

/-- The labels that lines define, in their order. -/
def labels (code : List Line) : List Label :=
  code.filterMap Line.label?

@[simp] theorem labels_nil : labels [] = [] :=
  rfl

@[simp] theorem labels_append
    (first second : List Line) :
    labels (first ++ second) = labels first ++ labels second :=
  List.filterMap_append

/--
The position of the line that defines a label, found by the name of the label.
-/
def labelPosition?
    (code : List Line)
    (target : Label) :
    Option Nat :=
  code.findIdx? fun line => line.label?.map Label.name == some target.name

/-- The positions at which a walk can go on. -/
def successors
    (code : List Line)
    (position : Nat) :
    List Nat :=
  match code[position]? with
  | none => []
  | some line =>
      match line.control? with
      | some (.jump .always target) => (labelPosition? code target).toList
      | some (.jump _ target) =>
          (position + 1) :: (labelPosition? code target).toList
      | _ => [position + 1]

/--
A walk from the first line to a position, with the lines passed on the way.
-/
inductive Walk (code : List Line) : List Line → Nat → Prop where
  | start :
      Walk code [] 0
  | next
      {passed : List Line}
      {position following : Nat}
      {line : Line} :
      Walk code passed position →
      code[position]? = some line →
      following ∈ successors code position →
      Walk code (passed ++ [line]) following

/-- Walks pass lines of the code only. -/
theorem Walk.passed_subset
    {code passed : List Line}
    {position : Nat}
    (walk : Walk code passed position) :
    passed ⊆ code := by
  induction walk with
  | start =>
      exact List.nil_subset _
  | next walk lineAt goesOn inductionHypothesis =>
      refine List.append_subset.mpr ⟨inductionHypothesis, ?_⟩
      simpa using List.mem_of_getElem? lineAt

/-- Lines that stand in the code from a position on. -/
def Placed
    (code : List Line)
    (position : Nat)
    (lines : List Line) :
    Prop :=
  lines <+: code.drop position

namespace Placed

theorem append_left
    {code first second : List Line}
    {position : Nat}
    (placed : Placed code position (first ++ second)) :
    Placed code position first :=
  (List.prefix_append first second).trans placed

theorem append_right
    {code first second : List Line}
    {position : Nat}
    (placed : Placed code position (first ++ second)) :
    Placed code (position + first.length) second := by
  obtain ⟨rest, shape⟩ := placed
  refine ⟨rest, ?_⟩
  rw [← List.drop_drop, ← shape, List.append_assoc, List.drop_left]

theorem split
    {code first second : List Line}
    {position : Nat}
    (placed : Placed code position (first ++ second)) :
    Placed code position first ∧ Placed code (position + first.length) second :=
  ⟨placed.append_left, placed.append_right⟩

/--
The lines of a stretch are the lines of the code, counted from its position.
-/
theorem getElem?
    {code lines : List Line}
    {position offset : Nat}
    (placed : Placed code position lines)
    (inside : offset < lines.length) :
    code[position + offset]? = lines[offset]? := by
  obtain ⟨rest, shape⟩ := placed
  rw [← List.getElem?_drop, ← shape, List.getElem?_append_left inside]

theorem head
    {code rest : List Line}
    {line : Line}
    {position : Nat}
    (placed : Placed code position (line :: rest)) :
    code[position]? = some line :=
  placed.getElem? (Nat.zero_lt_succ rest.length)

theorem tail
    {code rest : List Line}
    {line : Line}
    {position : Nat}
    (placed : Placed code position (line :: rest)) :
    Placed code (position + 1) rest :=
  (show Placed code position ([line] ++ rest) from placed).append_right

end Placed

/-- Lines stand in the code where they have been put. -/
theorem placed_append
    (before lines after : List Line) :
    Placed (before ++ lines ++ after) before.length lines := by
  refine ⟨after, ?_⟩
  rw [List.append_assoc, List.drop_left]

/-- Two elements of a list in their order are a sublist. -/
theorem pair_sublist
    {α : Type}
    {items : List α}
    {first second : α}
    {earlier later : Nat}
    (firstAt : items[earlier]? = some first)
    (secondAt : items[later]? = some second)
    (ordered : earlier < later) :
    [first, second] <+ items := by
  have inFront : first ∈ items.take later :=
    List.mem_iff_getElem?.mpr
      ⟨earlier, by rw [List.getElem?_take_of_lt ordered, firstAt]⟩
  have behind : second ∈ items.drop later :=
    List.mem_iff_getElem?.mpr
      ⟨0, by rw [List.getElem?_drop, Nat.add_zero, secondAt]⟩
  have split :=
    (List.singleton_sublist.mpr inFront).append
      (List.singleton_sublist.mpr behind)
  rwa [List.take_append_drop] at split

/-- Where labels are defined once, a label stands at one position only. -/
theorem label_position_unique
    {code : List Line}
    {label : Label}
    {first second : Nat}
    (unique : (labels code).Nodup)
    (firstAt : code[first]? = some (.label label))
    (secondAt : code[second]? = some (.label label)) :
    first = second := by
  have noPair : ¬ [Line.label label, Line.label label] <+ code := by
    intro twice
    have pair : [label, label] <+ labels code :=
      twice.filterMap Line.label?
    exact (List.nodup_iff_sublist.mp unique) label pair
  rcases Nat.lt_trichotomy first second with before | same | behind
  · exact absurd (pair_sublist firstAt secondAt before) noPair
  · exact same
  · exact absurd (pair_sublist secondAt firstAt behind) noPair

/-- A jump is resolved to a line that defines its target. -/
theorem label_of_labelPosition?
    {code : List Line}
    {target : Label}
    {position : Nat}
    (resolved : labelPosition? code target = some position) :
    code[position]? = some (.label target) := by
  obtain ⟨inside, matching, -⟩ := List.findIdx?_eq_some_iff_getElem.mp resolved
  rw [List.getElem?_eq_getElem inside]
  obtain ⟨label, isLabel, sameName⟩ :=
    Option.map_eq_some_iff.mp (eq_of_beq matching)
  rw [Line.label?_eq_some.mp isLabel, Label.name_inj.mp sameName]

/--
Where labels are defined once, a jump is resolved to the line that
defines its target.
-/
theorem labelPosition?_eq_some
    {code : List Line}
    {target : Label}
    {position : Nat}
    (unique : (labels code).Nodup)
    (definedAt : code[position]? = some (.label target)) :
    labelPosition? code target = some position := by
  have found : (labelPosition? code target).isSome := by
    rw [labelPosition?, List.findIdx?_isSome, List.any_eq_true]
    exact ⟨.label target, List.mem_of_getElem? definedAt, by simp [Line.label?]⟩
  obtain ⟨other, resolved⟩ := Option.isSome_iff_exists.mp found
  rw [resolved,
    label_position_unique unique (label_of_labelPosition? resolved) definedAt]

/--
The line behind is a successor unless a jump without a condition leads away.
-/
theorem next_mem_successors
    {code : List Line}
    {line : Line}
    {position : Nat}
    (lineAt : code[position]? = some line)
    (conditional : ∀ target, line.control? ≠ some (.jump .always target)) :
    position + 1 ∈ successors code position := by
  rw [successors, lineAt]
  dsimp only
  split
  case h_1 target isJump =>
      exact absurd isJump (conditional target)
  case h_2 =>
      exact List.mem_cons_self
  case h_3 =>
      exact List.mem_cons_self

/-- The target of a jump is a successor. -/
theorem target_mem_successors
    {code : List Line}
    {line : Line}
    {condition : Condition}
    {target : Label}
    {position finish : Nat}
    (unique : (labels code).Nodup)
    (lineAt : code[position]? = some line)
    (isJump : line.control? = some (.jump condition target))
    (labelAt : code[finish]? = some (.label target)) :
    finish ∈ successors code position := by
  have resolved := labelPosition?_eq_some unique labelAt
  cases condition <;> simp [successors, lineAt, isJump, resolved]

end Coprocessor.Assembly
