import Coprocessor.Proofs.Assembly.Flow

namespace Coprocessor.Assembly

open List

/-!
# Nested constructs

The labels and jumps of a construct are a few lines around the code of its
parts, and carry the number of the construct. Constructs are numbered in the
order in which they are opened, so the numbers inside a construct are above its
own, and two pieces of code that follow one another use disjoint ranges of
numbers. All properties of labels and jumps follow from this shape.
-/

/-- Lines that neither define a label nor jump. -/
def Plain (lines : List Line) : Prop :=
  ∀ line ∈ lines, line.control? = none

@[simp] theorem plain_nil : Plain [] :=
  List.forall_mem_nil _

@[simp] theorem plain_cons
    {line : Line}
    {rest : List Line} :
    Plain (line :: rest) ↔ line.control? = none ∧ Plain rest :=
  List.forall_mem_cons

@[simp] theorem plain_append
    {first second : List Line} :
    Plain (first ++ second) ↔ Plain first ∧ Plain second :=
  List.forall_mem_append

/-- The constructs that use labels. -/
inductive Construct where
  | conditional
  | loop
  | comparison
  deriving Repr, DecidableEq

/-- The two landmarks of a construct. -/
def Construct.landmarks : Construct → List Landmark
  | .conditional => [.elseBranch, .endOfConditional]
  | .loop => [.loopStart, .endOfLoop]
  | .comparison => [.comparisonHolds, .endOfComparison]

/-- The ways in which the labels and jumps of a construct are laid out. -/
inductive Frame where
  | conditional
  | choice
  | loop
  | comparison (condition : Condition)
  | idleComparison (condition : Condition)
  deriving Repr, DecidableEq

namespace Frame

/-- The construct that a frame belongs to. -/
def construct : Frame → Construct
  | .conditional | .choice => .conditional
  | .loop => .loop
  | .comparison _ | .idleComparison _ => .comparison

/-- The lines of a frame in front of the first part of its construct. -/
def opening (number : Nat) : Frame → List Line
  | .conditional | .choice => [.code (.jump .equal ⟨.elseBranch, number⟩)]
  | .loop => [.label ⟨.loopStart, number⟩]
  | .comparison condition =>
      [.code (.jump condition ⟨.endOfComparison, number⟩),
        .label ⟨.comparisonHolds, number⟩]
  | .idleComparison condition =>
      [.instr (.jump condition ⟨.endOfComparison, number⟩) 3,
        .label ⟨.comparisonHolds, number⟩]

/-- The lines of a frame between the two parts of its construct. -/
def middle (number : Nat) : Frame → List Line
  | .conditional | .comparison _ => []
  | .choice =>
      [.code (.jump .always ⟨.endOfConditional, number⟩),
        .label ⟨.elseBranch, number⟩]
  | .loop => [.code (.jump .equal ⟨.endOfLoop, number⟩)]
  | .idleComparison _ => [.code (.jump .always ⟨.endOfComparison, number⟩)]

/-- The lines of a frame behind the second part of its construct. -/
def closing (number : Nat) : Frame → List Line
  | .conditional =>
      [.label ⟨.elseBranch, number⟩, .label ⟨.endOfConditional, number⟩]
  | .choice => [.label ⟨.endOfConditional, number⟩]
  | .loop =>
      [.code (.jump .always ⟨.loopStart, number⟩), .label ⟨.endOfLoop, number⟩]
  | .comparison _ | .idleComparison _ => [.label ⟨.endOfComparison, number⟩]

/-- All lines of a frame. -/
def lines
    (frame : Frame)
    (number : Nat) :
    List Line :=
  frame.opening number ++ frame.middle number ++ frame.closing number

theorem opening_subset
    (frame : Frame)
    (number : Nat) :
    frame.opening number ⊆ frame.lines number :=
  fun _ member => List.mem_append_left _ (List.mem_append_left _ member)

theorem middle_subset
    (frame : Frame)
    (number : Nat) :
    frame.middle number ⊆ frame.lines number :=
  fun _ member => List.mem_append_left _ (List.mem_append_right _ member)

theorem closing_subset
    (frame : Frame)
    (number : Nat) :
    frame.closing number ⊆ frame.lines number :=
  fun _ member => List.mem_append_right _ member

theorem exists_mem_lines
    (frame : Frame)
    (number : Nat) :
    ∃ line, line ∈ frame.lines number := by
  cases frame <;> exact ⟨_, List.mem_cons_self⟩

/-- Every line of a frame carries the number of its construct. -/
theorem number?_of_mem_lines
    {frame : Frame}
    {number : Nat}
    {line : Line}
    (member : line ∈ frame.lines number) :
    line.number? = some number := by
  cases frame <;>
    simp only [lines, opening, middle, closing, List.append_nil,
      List.cons_append, List.nil_append, List.mem_cons, List.not_mem_nil,
      or_false] at member <;>
    rcases member with rfl | rfl | rfl | rfl <;> rfl

/-- A line of a frame carries no other number. -/
theorem number_eq_of_mem
    {frame : Frame}
    {own number : Nat}
    {line : Line}
    (member : line ∈ frame.lines own)
    (mentioned : line.number? = some number) :
    number = own := by
  rw [number?_of_mem_lines member, Option.some.injEq] at mentioned
  exact mentioned.symm

/-- A construct begins with a line of its frame. -/
theorem head?_around
    (frame : Frame)
    (number : Nat)
    (code : List Line) :
    (frame.opening number ++ code).head?.bind Line.number? = some number := by
  cases frame <;> rfl

/-- A construct ends with a line of its frame. -/
theorem getLast?_around
    (frame : Frame)
    (number : Nat)
    (code : List Line) :
    (code ++ frame.closing number).getLast?.bind Line.number? =
      some number := by
  cases frame <;> simp [closing] <;> rfl

/-- The labels of a frame are those of the landmarks of its construct. -/
theorem label_mem_lines
    {frame : Frame}
    {landmark : Landmark}
    {number : Nat} :
    Line.label ⟨landmark, number⟩ ∈ frame.lines number ↔
      landmark ∈ frame.construct.landmarks := by
  cases frame <;>
    simp [lines, opening, middle, closing, construct, Construct.landmarks,
      Line.code]

/-- A frame defines every label that it jumps to. -/
theorem target_mem_lines
    {frame : Frame}
    {number : Nat}
    {line : Line}
    {condition : Condition}
    {target : Label}
    (member : line ∈ frame.lines number)
    (jumps : line.control? = some (.jump condition target)) :
    Line.label target ∈ frame.lines number := by
  cases frame <;>
    simp only [lines, opening, middle, closing, List.append_nil,
      List.cons_append, List.nil_append, List.mem_cons, List.not_mem_nil,
      or_false] at member <;>
    rcases member with rfl | rfl | rfl | rfl <;>
    cases jumps <;>
    simp [lines, opening, middle, closing]

/-- A frame defines no label twice. -/
theorem nodup_labels_lines
    (frame : Frame)
    (number : Nat) :
    (labels (frame.lines number)).Nodup := by
  cases frame <;>
    simp [lines, opening, middle, closing, labels, Line.label?, Line.code,
      List.filterMap_cons]

/--
Within a frame no jump follows its target, except for the start of a loop.
-/
theorem pairwise_forward
    (frame : Frame)
    (number : Nat) :
    (frame.lines number).Pairwise fun first second =>
      ∀ condition landmark other,
        first = .label ⟨landmark, other⟩ →
        landmark ≠ .loopStart →
        second.control? ≠ some (.jump condition ⟨landmark, other⟩) := by
  cases frame <;>
    simp [lines, opening, middle, closing, Line.code, Line.control?]

/-- Within a frame the start of a loop stands in front of the jumps to it. -/
theorem pairwise_backward
    (frame : Frame)
    (number : Nat) :
    (frame.lines number).Pairwise fun first second =>
      ∀ condition other,
        first.control? = some (.jump condition ⟨.loopStart, other⟩) →
        second ≠ .label ⟨.loopStart, other⟩ := by
  cases frame <;>
    simp [lines, opening, middle, closing, Line.code, Line.control?]

end Frame

/--
Code in which constructs are properly nested.

The numbers are those of the last construct opened before the code and within
it; the list holds the constructs of the code in the order of their numbers.
-/
inductive Nested : Nat → List Construct → List Line → Nat → Prop where
  | plain
      {number : Nat}
      {code : List Line} :
      Plain code →
      Nested number [] code number
  | append
      {before between after : Nat}
      {first second : List Construct}
      {firstCode secondCode : List Line} :
      Nested before first firstCode between →
      Nested between second secondCode after →
      Nested before (first ++ second) (firstCode ++ secondCode) after
  | construct
      (frame : Frame)
      {before between after : Nat}
      {first second : List Construct}
      {firstCode secondCode : List Line} :
      Nested (before + 1) first firstCode between →
      Nested between second secondCode after →
      Nested before (frame.construct :: (first ++ second))
        (frame.opening (before + 1) ++ firstCode ++ frame.middle (before + 1) ++
          secondCode ++ frame.closing (before + 1))
        after

/-- Whether a line carries the number of a construct. -/
def Line.mentions
    (number : Nat)
    (line : Line) :
    Bool :=
  line.number? == some number

@[simp] theorem Line.mentions_iff
    {number : Nat}
    {line : Line} :
    line.mentions number = true ↔ line.number? = some number := by
  simp [mentions]

/-- The lines of a frame that carry a number are all of them or none. -/
theorem Frame.filter_mentions
    {part : List Line}
    {frame : Frame}
    {own : Nat}
    (isPart : part ⊆ frame.lines own)
    (number : Nat) :
    part.filter (Line.mentions number) = if number = own then part else [] := by
  split
  · rename_i same
    subst number
    rw [List.filter_eq_self]
    intro line member
    exact Line.mentions_iff.mpr (Frame.number?_of_mem_lines (isPart member))
  · rename_i different
    rw [List.filter_eq_nil_iff]
    intro line member mentioned
    exact different
      (Frame.number_eq_of_mem (isPart member) (Line.mentions_iff.mp mentioned))

namespace Nested

theorem nil (number : Nat) : Nested number [] [] number :=
  .plain plain_nil

/-- Plain lines may stand in front of nested code. -/
theorem behind
    {before after : Nat}
    {constructs : List Construct}
    {front code : List Line}
    (uncontrolled : Plain front)
    (nested : Nested before constructs code after) :
    Nested before constructs (front ++ code) after :=
  (Nested.plain uncontrolled).append nested

/-- Plain lines may stand behind nested code. -/
theorem followed
    {before after : Nat}
    {constructs : List Construct}
    {code back : List Line}
    (nested : Nested before constructs code after)
    (uncontrolled : Plain back) :
    Nested before constructs (code ++ back) after := by
  have whole := nested.append (.plain uncontrolled)
  rwa [List.append_nil] at whole

/-- Every construct takes one number. -/
theorem after_eq
    {before after : Nat}
    {constructs : List Construct}
    {code : List Line}
    (nested : Nested before constructs code after) :
    after = before + constructs.length := by
  induction nested with
  | plain _ =>
      simp
  | append _ _ firstCount secondCount =>
      simp only [List.length_append]
      omega
  | construct frame _ _ firstCount secondCount =>
      simp only [List.length_cons, List.length_append]
      omega

/-- Code mentions no numbers outside of its range. -/
theorem filter_eq_nil
    {before after : Nat}
    {constructs : List Construct}
    {code : List Line}
    (nested : Nested before constructs code after)
    {number : Nat}
    (outside : number ≤ before ∨ after < number) :
    code.filter (Line.mentions number) = [] := by
  induction nested with
  | plain uncontrolled =>
      rw [List.filter_eq_nil_iff]
      intro line member mentioned
      simp [Line.number?, uncontrolled line member] at mentioned
  | append firstNested secondNested firstNone secondNone =>
      have firstCount := firstNested.after_eq
      have secondCount := secondNested.after_eq
      rw [List.filter_append, firstNone (by omega), secondNone (by omega)]
      rfl
  | @construct frame before between after first second _ _ firstNested
      secondNested firstNone secondNone =>
      have firstCount := firstNested.after_eq
      have secondCount := secondNested.after_eq
      have notOwn : number ≠ before + 1 := by
        omega
      simp only [List.filter_append, firstNone (by omega),
        secondNone (by omega),
        frame.filter_mentions (frame.opening_subset (before + 1)),
        frame.filter_mentions (frame.middle_subset (before + 1)),
        frame.filter_mentions (frame.closing_subset (before + 1)), notOwn,
        ↓reduceIte, List.append_nil]

/-- A line of the code mentions a number within its range only. -/
theorem number_bounds
    {before after : Nat}
    {constructs : List Construct}
    {code : List Line}
    (nested : Nested before constructs code after)
    {line : Line}
    {number : Nat}
    (member : line ∈ code)
    (mentioned : line.number? = some number) :
    before < number ∧ number ≤ after := by
  by_contra outside
  have none : code.filter (Line.mentions number) = [] :=
    nested.filter_eq_nil (by omega)
  rw [List.filter_eq_nil_iff] at none
  exact none line member (Line.mentions_iff.mpr mentioned)

/-- The lines of a number in two pieces of code are its lines in one of them. -/
theorem exists_frame_append
    {before between after : Nat}
    {first second : List Construct}
    {firstCode secondCode : List Line}
    (firstNested : Nested before first firstCode between)
    (secondNested : Nested between second secondCode after)
    {number : Nat}
    (inFirst :
      number ≤ between →
        ∃ frame : Frame,
          first[number - before - 1]? = some frame.construct ∧
            firstCode.filter (Line.mentions number) = frame.lines number)
    (inSecond :
      between < number →
        ∃ frame : Frame,
          second[number - between - 1]? = some frame.construct ∧
            secondCode.filter (Line.mentions number) = frame.lines number)
    (above : before < number) :
    ∃ frame : Frame,
      (first ++ second)[number - before - 1]? = some frame.construct ∧
        firstCode.filter (Line.mentions number) ++
          secondCode.filter (Line.mentions number) =
          frame.lines number := by
  have firstCount := firstNested.after_eq
  by_cases early : number ≤ between
  · obtain ⟨frame, owner, shape⟩ := inFirst early
    refine ⟨frame, ?_, ?_⟩
    · rw [List.getElem?_append_left (by omega), owner]
    · rw [shape, secondNested.filter_eq_nil (Or.inl early), List.append_nil]
  · obtain ⟨frame, owner, shape⟩ := inSecond (by omega)
    refine ⟨frame, ?_, ?_⟩
    · rw [List.getElem?_append_right (by omega), ← owner]
      congr 1
      omega
    · rw [shape, firstNested.filter_eq_nil (Or.inr (by omega)), List.nil_append]

/--
The lines that mention a number within the range are the lines of one frame.
-/
theorem exists_frame
    {before after : Nat}
    {constructs : List Construct}
    {code : List Line}
    (nested : Nested before constructs code after)
    {number : Nat}
    (above : before < number)
    (within : number ≤ after) :
    ∃ frame : Frame,
      constructs[number - before - 1]? = some frame.construct ∧
        code.filter (Line.mentions number) = frame.lines number := by
  induction nested with
  | plain _ =>
      omega
  | append firstNested secondNested firstFrame secondFrame =>
      rw [List.filter_append]
      exact exists_frame_append firstNested secondNested
        (firstFrame above) (fun late => secondFrame late within) above
  | @construct frame before between after first second _ _ firstNested
      secondNested firstFrame secondFrame =>
      have firstCount := firstNested.after_eq
      simp only [List.filter_append,
        frame.filter_mentions (frame.opening_subset (before + 1)),
        frame.filter_mentions (frame.middle_subset (before + 1)),
        frame.filter_mentions (frame.closing_subset (before + 1))]
      by_cases own : number = before + 1
      · subst own
        refine ⟨frame, ?_, ?_⟩
        · simp
        · simp [firstNested.filter_eq_nil (Or.inl (Nat.le_refl _)),
            secondNested.filter_eq_nil
              (Or.inl (by omega : before + 1 ≤ between)),
            Frame.lines]
      · have shifted : number - before - 1 = number - (before + 1) - 1 + 1 := by
          omega
        simp only [own, ↓reduceIte, List.nil_append, List.append_nil, shifted,
          List.getElem?_cons_succ]
        exact exists_frame_append firstNested secondNested
          (firstFrame (by omega)) (fun late => secondFrame late within)
          (by omega)

end Nested

/--
A stretch of the code from one mention of a number to another which holds all
mentions of each number that it mentions.
-/
structure Sealed
    (code : List Line)
    (number first last : Nat) :
    Prop where
  ordered :
    first ≤ last
  firstMentions :
    code[first]?.bind Line.number? = some number
  lastMentions :
    code[last]?.bind Line.number? = some number
  closed :
    ∀ {inner other position : Nat},
      first ≤ position →
      position ≤ last →
      code[position]?.bind Line.number? = some inner →
      code[other]?.bind Line.number? = some inner →
      first ≤ other ∧ other ≤ last

/--
A sealed stretch stays sealed between lines that mention none of its
code's numbers.
-/
theorem Sealed.surround
    {code : List Line}
    {number first last : Nat}
    (isSealed : Sealed code number first last)
    (front back : List Line)
    (apart :
      ∀ {line other : Line} {inner : Nat},
        line ∈ code →
        other ∈ front ∨ other ∈ back →
        line.number? = some inner →
        other.number? ≠ some inner) :
    Sealed (front ++ code ++ back) number (front.length + first)
      (front.length + last) := by
  have inCode :
      ∀ {position inner : Nat},
        code[position]?.bind Line.number? = some inner →
        position < code.length := by
    intro position inner mentioned
    by_contra beyond
    rw [List.getElem?_eq_none (by omega)] at mentioned
    cases mentioned
  have shifted :
      ∀ {position : Nat},
        position < code.length →
        (front ++ code ++ back)[front.length + position]? =
          code[position]? := by
    intro position inside
    rw [List.append_assoc, List.getElem?_append_right (by omega),
      Nat.add_sub_cancel_left, List.getElem?_append_left inside]
  have lastInside := inCode isSealed.lastMentions
  refine ⟨Nat.add_le_add_left isSealed.ordered _, ?_, ?_, ?_⟩
  · rw [shifted (inCode isSealed.firstMentions)]
    exact isSealed.firstMentions
  · rw [shifted lastInside]
    exact isSealed.lastMentions
  · intro inner other position fromFirst toLast positionMentions otherMentions
    obtain ⟨offset, rfl⟩ := Nat.exists_eq_add_of_le
      (show front.length ≤ position by omega)
    rw [shifted (by omega)] at positionMentions
    obtain ⟨line, lineAt, lineNumber⟩ :=
      Option.bind_eq_some_iff.mp positionMentions
    obtain ⟨otherLine, otherAt, otherNumber⟩ :=
      Option.bind_eq_some_iff.mp otherMentions
    have lineMember := List.mem_of_getElem? lineAt
    -- A mention outside of the code itself would be in front of it or behind
    -- it.
    have otherInside :
        front.length ≤ other ∧ other < front.length + code.length := by
      by_contra outside
      refine apart lineMember ?_ lineNumber otherNumber
      by_cases early : other < front.length
      · rw [List.append_assoc, List.getElem?_append_left early] at otherAt
        exact Or.inl (List.mem_of_getElem? otherAt)
      · rw [List.getElem?_append_right
          (by simp only [List.length_append]; omega)] at otherAt
        exact Or.inr (List.mem_of_getElem? otherAt)
    obtain ⟨otherOffset, rfl⟩ := Nat.exists_eq_add_of_le otherInside.1
    rw [shifted (by omega)] at otherMentions
    obtain ⟨low, high⟩ :=
      isSealed.closed (show first ≤ offset by omega) (by omega) positionMentions
        otherMentions
    omega

/--
Code that begins and ends with a mention of a number is sealed as a whole.
-/
theorem sealed_of_ends
    {code : List Line}
    {number : Nat}
    (headMentions : code.head?.bind Line.number? = some number)
    (lastMentions : code.getLast?.bind Line.number? = some number) :
    Sealed code number 0 (code.length - 1) := by
  refine ⟨Nat.zero_le _, ?_, ?_, ?_⟩
  · rwa [← List.head?_eq_getElem?]
  · rwa [← List.getLast?_eq_getElem?]
  · intro inner other position _ _ _ otherMentions
    obtain ⟨line, lineAt, -⟩ := Option.bind_eq_some_iff.mp otherMentions
    obtain ⟨inside, -⟩ := List.getElem?_eq_some_iff.mp lineAt
    omega

namespace Nested

/-- Every number within the range has a sealed stretch. -/
theorem exists_sealed
    {before after : Nat}
    {constructs : List Construct}
    {code : List Line}
    (nested : Nested before constructs code after)
    {number : Nat}
    (above : before < number)
    (within : number ≤ after) :
    ∃ first last, Sealed code number first last := by
  induction nested with
  | plain _ =>
      omega
  | @append _ between _ _ _ firstCode secondCode firstNested secondNested
      firstSealed secondSealed =>
      by_cases inFirst : number ≤ between
      · obtain ⟨first, last, isSealed⟩ := firstSealed above inFirst
        refine ⟨_, _, isSealed.surround [] secondCode ?_⟩
        intro line other inner member elsewhere mentioned otherMentioned
        have firstBounds := firstNested.number_bounds member mentioned
        have secondBounds :=
          secondNested.number_bounds (elsewhere.resolve_left List.not_mem_nil)
            otherMentioned
        omega
      · obtain ⟨first, last, isSealed⟩ := secondSealed (by omega) within
        rw [← List.append_nil (firstCode ++ secondCode)]
        refine ⟨_, _, isSealed.surround firstCode [] ?_⟩
        intro line other inner member elsewhere mentioned otherMentioned
        have secondBounds := secondNested.number_bounds member mentioned
        have firstBounds :=
          firstNested.number_bounds (elsewhere.resolve_right List.not_mem_nil)
            otherMentioned
        omega
  | @construct frame before between after _ _ firstCode secondCode firstNested
      secondNested firstSealed secondSealed =>
      have firstCount := firstNested.after_eq
      by_cases own : number = before + 1
      · subst own
        refine ⟨0, _, sealed_of_ends ?_ ?_⟩
        · rw [List.append_assoc, List.append_assoc, List.append_assoc]
          exact frame.head?_around (before + 1) _
        · exact frame.getLast?_around (before + 1) _
      · by_cases inFirst : number ≤ between
        · obtain ⟨first, last, isSealed⟩ := firstSealed (by omega) inFirst
          rw [List.append_assoc, List.append_assoc]
          refine ⟨_, _, isSealed.surround _ _ ?_⟩
          intro line other inner member elsewhere mentioned otherMentioned
          have firstBounds := firstNested.number_bounds member mentioned
          have place :
              other ∈ frame.lines (before + 1) ∨ other ∈ secondCode := by
            simp only [List.mem_append, Frame.lines] at elsewhere ⊢
            tauto
          rcases place with inFrame | inSecond
          · have ownNumber := frame.number_eq_of_mem inFrame otherMentioned
            omega
          · have secondBounds :=
              secondNested.number_bounds inSecond otherMentioned
            omega
        · obtain ⟨first, last, isSealed⟩ := secondSealed (by omega) within
          refine ⟨_, _, isSealed.surround _ _ ?_⟩
          intro line other inner member elsewhere mentioned otherMentioned
          have secondBounds := secondNested.number_bounds member mentioned
          have place :
              other ∈ frame.lines (before + 1) ∨ other ∈ firstCode := by
            simp only [List.mem_append, Frame.lines] at elsewhere ⊢
            tauto
          rcases place with inFrame | inFirstCode
          · have ownNumber := frame.number_eq_of_mem inFrame otherMentioned
            omega
          · have firstBounds :=
              firstNested.number_bounds inFirstCode otherMentioned
            omega

end Nested

end Coprocessor.Assembly
