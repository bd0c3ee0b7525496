import Coprocessor.Proofs.Assembly.Depth
import Coprocessor.Proofs.Assembly.Routes

namespace Coprocessor.Assembly

/-!
# Registers that are left on the stack

Code that passes the check of depths without its loads of one keeps every one
that it loads: along every walk the depth is that of the checked code, and one
more for each one that has been loaded on the way.
-/

/-- Whether a line loads one. -/
def Line.loadsOne (line : Line) : Bool :=
  line.instr? == some .loadOne

/-- A line without its load of one. -/
def Line.withoutOne (line : Line) : Line :=
  if line.loadsOne then .blank else line

/-- How many lines load one. -/
def surplus (lines : List Line) : Nat :=
  lines.countP Line.loadsOne

@[simp] theorem surplus_nil : surplus [] = 0 :=
  rfl

@[simp] theorem surplus_append (first second : List Line) :
    surplus (first ++ second) = surplus first + surplus second :=
  List.countP_append

@[simp] theorem surplus_label (label : Label) : surplus [.label label] = 0 :=
  rfl

@[simp] theorem surplus_jump
    (condition : Condition)
    (target : Label)
    (column : Nat) :
    surplus [.instr (.jump condition target) column] = 0 :=
  rfl

theorem surplus_replicate
    (times : Nat)
    (lines : List Line) :
    surplus (List.replicate times lines).flatten = times * surplus lines := by
  induction times with
  | zero =>
      simp
  | succ times inductionHypothesis =>
      rw [List.replicate_succ, List.flatten_cons, surplus_append,
        inductionHypothesis, Nat.succ_mul, Nat.add_comm]

/-- No one is loaded on a way through code without loads of one. -/
theorem surplus_eq_zero_of_subset
    {code passed : List Line}
    (subset : passed ⊆ code)
    (none : surplus code = 0) :
    surplus passed = 0 := by
  rw [surplus, List.countP_eq_zero] at none ⊢
  exact fun line member => none line (subset member)

/-- A load of one is neither a label nor a jump. -/
theorem Line.control?_of_loadsOne
    {line : Line}
    (loads : line.loadsOne = true) :
    line.control? = none := by
  cases line with
  | instr code column =>
      have isLoad : code = .loadOne := by
        simpa [loadsOne, instr?] using loads
      rw [isLoad]
      rfl
  | _ =>
      cases loads

theorem Line.control?_withoutOne (line : Line) :
    line.withoutOne.control? = line.control? := by
  rw [withoutOne]
  split_ifs with loads
  · exact (control?_of_loadsOne loads).symm
  · rfl

theorem Line.label?_withoutOne (line : Line) :
    line.withoutOne.label? = line.label? := by
  cases line with
  | instr code column =>
      rw [withoutOne]
      split_ifs <;> rfl
  | _ =>
      rfl

theorem labelPosition?_withoutOne
    (code : List Line)
    (target : Label) :
    labelPosition? (code.map Line.withoutOne) target =
      labelPosition? code target := by
  rw [labelPosition?, List.findIdx?_map, labelPosition?]
  congr 1
  funext line
  rw [Function.comp_apply, Line.label?_withoutOne]

theorem successors_withoutOne
    (code : List Line)
    (position : Nat) :
    successors (code.map Line.withoutOne) position =
      successors code position := by
  rw [successors, successors, List.getElem?_map]
  cases code[position]? with
  | none =>
      rfl
  | some line =>
      simp only [Option.map_some, Line.control?_withoutOne,
        labelPosition?_withoutOne]

/-- A walk leads the same way if no ones are loaded. -/
theorem Walk.withoutOne
    {code passed : List Line}
    {position : Nat}
    (walk : Walk code passed position) :
    Walk (code.map Line.withoutOne) (passed.map Line.withoutOne) position := by
  induction walk with
  | start =>
      exact .start
  | @next passed position following line walk lineAt goesOn
      inductionHypothesis =>
      rw [List.map_append]
      refine inductionHypothesis.next ?_ ?_
      · rw [List.getElem?_map, lineAt, Option.map_some]
      · rwa [successors_withoutOne]

/-- Registers below those that an instruction needs stay below. -/
theorem Instr.depthAfter_add
    {code : Instr}
    {depth next : Nat}
    (leads : code.depthAfter depth = some next)
    (extra : Nat) :
    code.depthAfter (depth + extra) = some (next + extra) := by
  cases code with
  | load | loadInteger | loadZero | loadOne =>
      obtain rfl := Option.some.inj leads
      exact congrArg some (Nat.add_right_comm depth extra 1)
  | store | storeInteger | discard | subtractCell | test =>
      cases depth with
      | zero =>
          cases leads
      | succ below =>
          obtain rfl := Option.some.inj leads
          rw [Nat.add_right_comm]
          rfl
  | combine =>
      match depth with
      | 0 | 1 =>
          cases leads
      | below + 2 =>
          obtain rfl := Option.some.inj leads
          rw [Nat.add_right_comm]
          rfl
  | storeStatus | setFlags | storeControl | loadControl | loadAccumulator
  | storeAccumulator
  | maskAccumulator | raiseAccumulator | jump =>
      obtain rfl := Option.some.inj leads
      rfl

/-- A line leaves one register more than the line without its load of one. -/
theorem Line.depthAfter_withoutOne
    {line : Line}
    {depth next : Nat}
    (leads : line.withoutOne.depthAfter depth = some next)
    (extra : Nat) :
    line.depthAfter (depth + extra) =
      some (next + (extra + surplus [line])) := by
  by_cases loads : line.loadsOne = true
  · have kept : next = depth := by
      rw [withoutOne, if_pos loads] at leads
      exact (Option.some.inj leads).symm
    cases line with
    | instr code column =>
        have isLoad : code = .loadOne := by
          simpa [loadsOne, instr?] using loads
        rw [isLoad, kept]
        rfl
    | _ =>
        cases loads
  · have none : surplus [line] = 0 :=
      List.countP_eq_zero.mpr (List.forall_mem_singleton.mpr loads)
    rw [withoutOne, if_neg loads] at leads
    rw [none, Nat.add_zero]
    cases line with
    | instr code column =>
        exact Instr.depthAfter_add leads extra
    | _ =>
        obtain rfl := Option.some.inj leads
        rfl

/-- Lines leave one register more for every load of one. -/
theorem depthAfter_withoutOne
    {lines : List Line}
    {depth final : Nat}
    (leads : depthAfter depth (lines.map Line.withoutOne) = some final)
    (extra : Nat) :
    depthAfter (depth + extra) lines =
      some (final + (extra + surplus lines)) := by
  induction lines generalizing depth extra with
  | nil =>
      obtain rfl := Option.some.inj leads
      rfl
  | cons line rest inductionHypothesis =>
      rw [List.map_cons, depthAfter, List.foldlM_cons] at leads
      obtain ⟨next, first, later⟩ := Option.bind_eq_some_iff.mp leads
      rw [depthAfter, List.foldlM_cons, Line.depthAfter_withoutOne first extra]
      have split : surplus (line :: rest) = surplus [line] + surplus rest :=
        surplus_append [line] rest
      rw [split, ← Nat.add_assoc extra]
      exact inductionHypothesis later (extra + surplus [line])

/-- The depth in front of a position if no ones were loaded. -/
def baseDepth
    (code : List Line)
    (position : Nat) :
    Nat :=
  depthAt (code.map Line.withoutOne) position

/--
Along every walk the depth is the base of the position and the
number of ones loaded.
-/
theorem depthAfter_walk_surplus
    {code passed : List Line}
    {final position : Nat}
    (level : levelAfter 0 (code.map Line.withoutOne) = some final)
    (walk : Walk code passed position) :
    depthAfter 0 passed = some (baseDepth code position + surplus passed) := by
  have counted :=
    depthAfter_withoutOne (depthAfter_walk level walk.withoutOne) 0
  rwa [Nat.zero_add, Nat.zero_add] at counted

/-- Lines stand where they stood, without their loads of one. -/
theorem Placed.withoutOne
    {code lines : List Line}
    {position : Nat}
    (placed : Placed code position lines) :
    Placed (code.map Line.withoutOne) position (lines.map Line.withoutOne) := by
  rw [Placed, ← List.map_drop]
  exact List.IsPrefix.map Line.withoutOne placed

/--
The depth of the stack is accounted for: whichever way leads to a line, it is a
base of at most two, which is zero at both ends of the given stretches, and one
register for every one that was loaded on the way.
-/
structure Accounted
    (code : List Line)
    (stretches : List Stretch)
    (base : Nat → Nat) :
    Prop where
  counted :
    ∀ passed position, Walk code passed position →
      depthAfter 0 passed = some (base position + surplus passed)
  bounded :
    ∀ position, base position ≤ 2
  emptyAround :
    ∀ stretch ∈ stretches, EmptyAround code base stretch

/--
The stack is balanced: whichever way leads through one of the given stretches,
it has the same depth behind the stretch as in front of it, and no way needs
more than eight registers.
-/
structure Balanced
    (code : List Line)
    (stretches : List Stretch) :
    Prop where
  returns :
    ∀ stretch ∈ stretches, ∀ before between,
      Walk code before stretch.start →
        Route code stretch.start between
          (stretch.start + stretch.lines.length) →
          ∃ depth, depthAfter 0 before = some depth ∧
            depthAfter 0 (before ++ between) = some depth
  withinRegisters :
    ∀ passed position, Walk code passed position →
      ∃ depth ≤ 8, depthAfter 0 passed = some depth

namespace Accounted

variable
    {code : List Line}
    {stretches : List Stretch}
    {base : Nat → Nat}
    (accounted : Accounted code stretches base)

include accounted

theorem mono
    {others : List Stretch}
    (subset : others ⊆ stretches) :
    Accounted code others base :=
  { accounted with emptyAround := fun stretch member =>
      accounted.emptyAround stretch (subset member) }

/--
Behind a stretch the stack is deeper by the ones loaded on the way through.
-/
theorem depth_behind
    {stretch : Stretch}
    {before between : List Line}
    (member : stretch ∈ stretches)
    (walk : Walk code before stretch.start)
    (route :
      Route code stretch.start between (stretch.start + stretch.lines.length)) :
    depthAfter 0 before = some (surplus before) ∧
      depthAfter 0 (before ++ between) =
        some (surplus before + surplus between) := by
  obtain ⟨-, emptyBefore, emptyBehind⟩ := accounted.emptyAround stretch member
  have inFront := accounted.counted before _ walk
  have behind := accounted.counted _ _ (walk.follow route)
  rw [emptyBefore, Nat.zero_add] at inFront
  rw [emptyBehind, Nat.zero_add, surplus_append] at behind
  exact ⟨inFront, behind⟩

/-- Code that loads no one is balanced. -/
theorem balanced (none : surplus code = 0) : Balanced code stretches where
  returns := by
    intro stretch member before between walk route
    obtain ⟨inFront, behind⟩ := accounted.depth_behind member walk route
    have noneOnWay :=
      surplus_eq_zero_of_subset (walk.follow route).passed_subset none
    rw [surplus_append] at noneOnWay
    rw [noneOnWay] at behind
    rw [Nat.eq_zero_of_add_eq_zero_right noneOnWay] at inFront
    exact ⟨0, inFront, behind⟩
  withinRegisters := by
    intro passed position walk
    have noneOnWay := surplus_eq_zero_of_subset walk.passed_subset none
    have depth := accounted.counted passed position walk
    rw [noneOnWay, Nat.add_zero] at depth
    exact ⟨base position, (accounted.bounded position).trans (by decide), depth⟩

/-- A way through a stretch that loads a one leaves the stack unbalanced. -/
theorem not_balanced
    {stretch : Stretch}
    {before between : List Line}
    (member : stretch ∈ stretches)
    (walk : Walk code before stretch.start)
    (route :
      Route code stretch.start between (stretch.start + stretch.lines.length))
    (loads : 0 < surplus between) :
    ¬ Balanced code stretches := by
  intro balanced
  obtain ⟨depth, inFront, behind⟩ :=
    balanced.returns stretch member before between walk route
  obtain ⟨countedInFront, countedBehind⟩ :=
    accounted.depth_behind member walk route
  rw [countedInFront] at inFront
  rw [countedBehind, ← inFront] at behind
  have same := Option.some.inj behind
  omega

end Accounted

/--
Wherever the lines stand in the code, a way leads through them on which one is
loaded the given number of times.
-/
def Crossed
    (code : List Line)
    (count : Nat)
    (lines : List Line) :
    Prop :=
  ∀ start, Placed code start lines →
    ∃ between, Route code start between (start + lines.length) ∧
      surplus between = count

namespace Crossed

variable
    {code : List Line}

theorem recount
    {lines : List Line}
    {count other : Nat}
    (crossed : Crossed code count lines)
    (same : count = other) :
    Crossed code other lines :=
  same ▸ crossed

theorem append
    {first second : List Line}
    {count otherCount : Nat}
    (crossed : Crossed code count first)
    (other : Crossed code otherCount second) :
    Crossed code (count + otherCount) (first ++ second) := by
  intro start placed
  obtain ⟨leading, firstRoute, firstCount⟩ := crossed start placed.append_left
  obtain ⟨trailing, secondRoute, secondCount⟩ := other _ placed.append_right
  refine ⟨leading ++ trailing, ?_,
    by rw [surplus_append, firstCount, secondCount]⟩
  rw [List.length_append, ← Nat.add_assoc]
  exact firstRoute.append secondRoute

variable
    (unique : (labels code).Nodup)

include unique

theorem of_passable
    {lines : List Line}
    (passable : Passable lines) :
    Crossed code (surplus lines) lines :=
  fun _ placed => ⟨lines, .lines unique placed passable, rfl⟩

/--
The first of two branches is taken, and the jump behind it leads to the end.
-/
theorem firstBranch
    {front other : List Line}
    {count : Nat}
    {middle last : Label}
    (crossed : Crossed code count front) :
    Crossed code count
      (front ++ [.code (.jump .always last), .label middle] ++ other ++
        [.label last]) := by
  intro start placed
  have ⟨uptoEnd, endPlaced⟩ := placed.split
  have ⟨inFront, jumpPlaced⟩ := uptoEnd.append_left.split
  obtain ⟨between, route, counted⟩ := crossed start inFront
  have jumps := Route.jump unique jumpPlaced.head rfl endPlaced.head
  have ends := Route.label endPlaced.head
  refine ⟨_, (route.append (jumps.append ends)).reach ?_, ?_⟩
  · simp [Nat.add_assoc]
  · simp only [surplus_append, counted, Line.code, surplus_jump, surplus_label,
      Nat.add_zero]

/-- The second of two branches is taken, by a jump in front of the first. -/
theorem secondBranch
    {front taken other : List Line}
    {count otherCount column : Nat}
    {condition : Condition}
    {middle last : Label}
    (crossed : Crossed code count front)
    (otherCrossed : Crossed code otherCount other) :
    Crossed code (count + otherCount)
      (front ++ [.instr (.jump condition middle) column] ++ taken ++
        [.code (.jump .always last), .label middle] ++ other ++
        [.label last]) := by
  intro start placed
  have parts := placed
  simp only [List.append_assoc, List.cons_append, List.nil_append] at parts
  have ⟨inFront, behindFront⟩ := parts.split
  have middlePlaced := behindFront.tail.append_right.tail
  have ⟨otherPlaced, endPlaced⟩ := middlePlaced.tail.split
  obtain ⟨leading, firstRoute, firstCount⟩ := crossed start inFront
  obtain ⟨trailing, secondRoute, secondCount⟩ := otherCrossed _ otherPlaced
  have jumps := Route.jump unique behindFront.head rfl middlePlaced.head
  have second := (Route.label middlePlaced.head).append secondRoute
  have ends := Route.label endPlaced.head
  refine ⟨_, (firstRoute.append (jumps.append (second.append ends))).reach ?_,
    ?_⟩
  · simp only [List.length_append, List.length_cons, List.length_nil]
    omega
  · simp only [surplus_append, firstCount, secondCount, surplus_jump,
      surplus_label, Nat.add_zero, Nat.zero_add]

/--
A loop is passed the given number of times and left by the jump behind its test.
-/
theorem loop
    {front test body : List Line}
    {count testCount bodyCount column : Nat}
    {condition : Condition}
    {top bottom : Label}
    (conditional : condition ≠ .always)
    (crossed : Crossed code count front)
    (testCrossed : Crossed code testCount test)
    (bodyCrossed : Crossed code bodyCount body)
    (passes : Nat) :
    Crossed code (count + (passes * (testCount + bodyCount) + testCount))
      (front ++ [.label top] ++ test ++
        [.instr (.jump condition bottom) column] ++ body ++
        [.code (.jump .always top), .label bottom]) := by
  intro start placed
  have parts := placed
  simp only [List.append_assoc, List.cons_append, List.nil_append] at parts
  have ⟨frontPlaced, topPlaced⟩ := parts.split
  have ⟨testPlaced, jumpPlaced⟩ := topPlaced.tail.split
  have ⟨bodyPlaced, tailPlaced⟩ := jumpPlaced.tail.split
  have bottomAt := tailPlaced.tail.head
  obtain ⟨leading, frontRoute, frontCount⟩ := crossed start frontPlaced
  obtain ⟨testing, testRoute, testCounted⟩ := testCrossed _ testPlaced
  obtain ⟨inside, bodyRoute, bodyCounted⟩ := bodyCrossed _ bodyPlaced
  have tests := (Route.label topPlaced.head).append testRoute
  have goesOn := next_mem_successors jumpPlaced.head (by
    simpa [Line.control?] using conditional)
  have enters := (Route.step jumpPlaced.head goesOn (.here _)).append bodyRoute
  have returns := Route.jump unique tailPlaced.head rfl topPlaced.head
  have round := tests.append (enters.append returns)
  have leaves := Route.jump unique jumpPlaced.head rfl bottomAt
  have ends := tests.append (leaves.append (.label bottomAt))
  refine ⟨_,
    (frontRoute.append ((round.replicate passes).append ends)).reach ?_, ?_⟩
  · simp only [List.length_append, List.length_cons, List.length_nil]
    omega
  · simp only [surplus_append, surplus_replicate, Line.code, surplus_jump,
      surplus_label, frontCount, testCounted, bodyCounted, Nat.add_zero,
      Nat.zero_add]

end Crossed

end Coprocessor.Assembly
