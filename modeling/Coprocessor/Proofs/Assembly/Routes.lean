import Coprocessor.Proofs.Assembly.Flow

namespace Coprocessor.Assembly

/-!
# Routes between two positions

A route is a part of a walk: it leads from one position to another and passes
the lines in between. Lines can be passed in their order if every jump without a
condition stands in front of its own target.
-/

/--
A way through the code from one position to another, with the
lines passed on it.
-/
inductive Route (code : List Line) : Nat → List Line → Nat → Prop where
  | here (position : Nat) :
      Route code position [] position
  | step
      {position middle finish : Nat}
      {line : Line}
      {rest : List Line} :
      code[position]? = some line →
      middle ∈ successors code position →
      Route code middle rest finish →
      Route code position (line :: rest) finish

/-- A walk goes on along a route. -/
theorem Walk.follow
    {code before between : List Line}
    {start finish : Nat}
    (walk : Walk code before start)
    (route : Route code start between finish) :
    Walk code (before ++ between) finish := by
  induction route generalizing before with
  | here position =>
      rwa [List.append_nil]
  | step lineAt goesOn _ inductionHypothesis =>
      rw [List.append_cons]
      exact inductionHypothesis (walk.next lineAt goesOn)

/-- Every jump without a condition stands in front of its own target. -/
def Passable (lines : List Line) : Prop :=
  ∀ position target,
    lines[position]?.bind Line.control? = some (.jump .always target) →
      lines[position + 1]? = some (.label target)

namespace Passable

theorem of_conditional
    {lines : List Line}
    (conditional :
      ∀ line ∈ lines, ∀ target, line.control? ≠ some (.jump .always target)) :
    Passable lines := by
  intro position target jumpAt
  obtain ⟨line, lineAt, isJump⟩ := Option.bind_eq_some_iff.mp jumpAt
  exact absurd isJump (conditional line (List.mem_of_getElem? lineAt) target)

theorem append
    {first second : List Line}
    (firstPassable : Passable first)
    (secondPassable : Passable second) :
    Passable (first ++ second) := by
  intro position target jumpAt
  by_cases inFirst : position < first.length
  · rw [List.getElem?_append_left inFirst] at jumpAt
    have labelAt := firstPassable position target jumpAt
    rwa [List.getElem?_append_left (List.getElem?_eq_some_iff.mp labelAt).1]
  · rw [List.getElem?_append_right (by omega)] at jumpAt
    have labelAt := secondPassable _ target jumpAt
    rw [List.getElem?_append_right (by omega), ← labelAt]
    congr 1
    omega

theorem jump (target : Label) :
    Passable [.code (.jump .always target), .label target] := by
  intro position other jumpAt
  match position with
  | 0 =>
      obtain rfl : target = other := by
        simpa [Line.control?, Line.code] using jumpAt
      rfl
  | 1 =>
      cases jumpAt
  | position + 2 =>
      cases jumpAt

theorem tail
    {line : Line}
    {rest : List Line}
    (passable : Passable (line :: rest)) :
    Passable rest :=
  fun position => passable (position + 1)

end Passable

namespace Route

theorem append
    {code first second : List Line}
    {start middle finish : Nat}
    (leading : Route code start first middle)
    (trailing : Route code middle second finish) :
    Route code start (first ++ second) finish := by
  induction leading with
  | here position =>
      exact trailing
  | step lineAt goesOn _ inductionHypothesis =>
      exact .step lineAt goesOn (inductionHypothesis trailing)

theorem reach
    {code between : List Line}
    {start finish other : Nat}
    (route : Route code start between finish)
    (same : finish = other) :
    Route code start between other :=
  same ▸ route

theorem label
    {code : List Line}
    {defined : Label}
    {position : Nat}
    (labelAt : code[position]? = some (.label defined)) :
    Route code position [.label defined] (position + 1) :=
  .step labelAt (next_mem_successors labelAt (by simp [Line.control?]))
    (.here _)

section Unique

variable
    {code : List Line}
    (unique : (labels code).Nodup)

include unique

theorem jump
    {line : Line}
    {condition : Condition}
    {target : Label}
    {position finish : Nat}
    (lineAt : code[position]? = some line)
    (isJump : line.control? = some (.jump condition target))
    (labelAt : code[finish]? = some (.label target)) :
    Route code position [line] finish :=
  .step lineAt (target_mem_successors unique lineAt isJump labelAt)
    (.here finish)

/-- Passable lines are passed in their order. -/
theorem lines
    {lines : List Line}
    {start : Nat}
    (placed : Placed code start lines)
    (passable : Passable lines) :
    Route code start lines (start + lines.length) := by
  induction lines generalizing start with
  | nil =>
      exact .here start
  | cons line rest inductionHypothesis =>
      have lineAt := placed.head
      have later := inductionHypothesis placed.tail passable.tail
      rw [Nat.add_right_comm] at later
      refine .step lineAt ?_ later
      by_cases always : ∃ target, line.control? = some (.jump .always target)
      · obtain ⟨target, isJump⟩ := always
        have labelAt : rest[0]? = some (.label target) :=
          passable 0 target isJump
        have inside : 0 < rest.length :=
          (List.getElem?_eq_some_iff.mp labelAt).1
        have target := placed.tail.getElem? inside
        rw [labelAt] at target
        exact target_mem_successors unique lineAt isJump target
      · exact next_mem_successors lineAt (not_exists.mp always)

end Unique

/-- A route that leads back to its start can be taken any number of times. -/
theorem replicate
    {code between : List Line}
    {start : Nat}
    (route : Route code start between start)
    (times : Nat) :
    Route code start (List.replicate times between).flatten start := by
  induction times with
  | zero =>
      exact .here start
  | succ times inductionHypothesis =>
      exact route.append inductionHypothesis

end Route

end Coprocessor.Assembly
