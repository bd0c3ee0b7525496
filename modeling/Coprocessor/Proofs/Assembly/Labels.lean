import Coprocessor.Proofs.Assembly.Nesting

namespace Coprocessor.Assembly

open List

/-!
# Labels and jumps of nested code

What nesting means for the lines of the code: labels are defined once, jumps
lead forward to labels that are there, except for the one that closes a loop,
and the line ranges of two constructs do not cross.
-/

/-- The range of the lines that mention a number. -/
structure Extent
    (code : List Line)
    (number first last : Nat) :
    Prop where
  firstMentions :
    code[first]?.bind Line.number? = some number
  lastMentions :
    code[last]?.bind Line.number? = some number
  between :
    ∀ {position : Nat},
      code[position]?.bind Line.number? = some number →
      first ≤ position ∧ position ≤ last

/--
The order of labels and jumps in a whole listing with the given constructs,
numbered from one.
-/
structure Structured
    (constructs : List Construct)
    (code : List Line) :
    Prop where
  namesUnique :
    ((labels code).map Label.name).Nodup
  targetsDefined :
    ∀ {line : Line} {condition : Condition} {target : Label},
      line ∈ code →
      line.control? = some (.jump condition target) →
      ∃ destination, labelPosition? code target = some destination
  numbersUsed :
    ∀ number,
      (∃ line ∈ code, line.number? = some number) ↔
        1 ≤ number ∧ number ≤ constructs.length
  labelsPaired :
    ∀ landmark number,
      Line.label ⟨landmark, number⟩ ∈ code ↔
        1 ≤ number ∧
          ∃ construct,
            constructs[number - 1]? = some construct ∧
              landmark ∈ construct.landmarks
  forward :
    ∀ {source destination : Nat} {condition : Condition} {target : Label},
      code[source]?.bind Line.control? = some (.jump condition target) →
      labelPosition? code target = some destination →
      target.landmark ≠ .loopStart →
      source < destination
  backward :
    ∀ {source destination number : Nat} {condition : Condition},
      code[source]?.bind Line.control? =
        some (.jump condition ⟨.loopStart, number⟩) →
      labelPosition? code ⟨.loopStart, number⟩ = some destination →
      condition = .always ∧
        destination < source ∧
        code[source + 1]? = some (.label ⟨.endOfLoop, number⟩)
  rangesNested :
    ∀ {one other first last otherFirst otherLast : Nat},
      one ≠ other →
      Extent code one first last →
      Extent code other otherFirst otherLast →
      last < otherFirst ∨
        otherLast < first ∨
        (first < otherFirst ∧ otherLast < last) ∨
        (otherFirst < first ∧ last < otherLast)

/--
Every jump to the start of a loop is unconditional and followed by
the end of that loop.
-/
def LoopsClosed : List Line → Prop
  | [] => True
  | line :: rest =>
      (∀ condition number,
        line.control? = some (.jump condition ⟨.loopStart, number⟩) →
        condition = .always ∧ rest.head? = some (.label ⟨.endOfLoop, number⟩)) ∧
      LoopsClosed rest

namespace LoopsClosed

theorem of_plain
    {code : List Line}
    (plain : Plain code) :
    LoopsClosed code := by
  induction code with
  | nil =>
      trivial
  | cons line rest inductionHypothesis =>
      rw [plain_cons] at plain
      exact ⟨by simp [plain.1], inductionHypothesis plain.2⟩

theorem append
    {first second : List Line}
    (firstClosed : LoopsClosed first)
    (secondClosed : LoopsClosed second) :
    LoopsClosed (first ++ second) := by
  induction first with
  | nil =>
      exact secondClosed
  | cons line rest inductionHypothesis =>
      rw [List.cons_append]
      refine ⟨?_, inductionHypothesis firstClosed.2⟩
      intro condition number jumps
      obtain ⟨unconditional, followed⟩ := firstClosed.1 condition number jumps
      rw [List.head?_append, followed]
      exact ⟨unconditional, rfl⟩

theorem of_nested
    {before after : Nat}
    {constructs : List Construct}
    {code : List Line}
    (nested : Nested before constructs code after) :
    LoopsClosed code := by
  induction nested with
  | plain uncontrolled =>
      exact of_plain uncontrolled
  | append _ _ firstClosed secondClosed =>
      exact firstClosed.append secondClosed
  | @construct frame before _ _ _ _ _ _ _ _ firstClosed secondClosed =>
      have opening : LoopsClosed (frame.opening (before + 1)) := by
        cases frame <;>
          simp [Frame.opening, LoopsClosed, Line.code, Line.control?]
      have middle : LoopsClosed (frame.middle (before + 1)) := by
        cases frame <;>
          simp [Frame.middle, LoopsClosed, Line.code, Line.control?]
      have closing : LoopsClosed (frame.closing (before + 1)) := by
        cases frame <;>
          simp [Frame.closing, LoopsClosed, Line.code, Line.control?]
      exact (((opening.append firstClosed).append middle).append
        secondClosed).append closing

theorem getElem?_succ
    {code : List Line}
    (closed : LoopsClosed code)
    {position number : Nat}
    {condition : Condition}
    (jumps :
      code[position]?.bind Line.control? =
        some (.jump condition ⟨.loopStart, number⟩)) :
    condition = .always ∧
      code[position + 1]? = some (.label ⟨.endOfLoop, number⟩) := by
  induction code generalizing position with
  | nil =>
      simp at jumps
  | cons line rest inductionHypothesis =>
      cases position with
      | zero =>
          rw [List.getElem?_cons_succ, ← List.head?_eq_getElem?]
          exact closed.1 condition number jumps
      | succ earlier =>
          exact inductionHypothesis closed.2 jumps

end LoopsClosed

namespace Nested

/--
Two lines in their order that mention the same number are lines of one
frame in that order.
-/
theorem frame_of_pair
    {after : Nat}
    {constructs : List Construct}
    {code : List Line}
    (nested : Nested 0 constructs code after)
    {first second : Line}
    {number : Nat}
    (ordered : [first, second] <+ code)
    (firstMentions : first.number? = some number)
    (secondMentions : second.number? = some number) :
    ∃ frame : Frame, [first, second] <+ frame.lines number := by
  have member : first ∈ code :=
    ordered.subset (by simp)
  obtain ⟨above, within⟩ := nested.number_bounds member firstMentions
  obtain ⟨frame, -, shape⟩ := nested.exists_frame above within
  refine ⟨frame, ?_⟩
  rw [← shape]
  have kept := ordered.filter (Line.mentions number)
  rwa [List.filter_eq_self.mpr
    (by simp [firstMentions, secondMentions])] at kept

/-- The lines of a number are those of one frame. -/
theorem frame_of_member
    {after : Nat}
    {constructs : List Construct}
    {code : List Line}
    (nested : Nested 0 constructs code after)
    {line : Line}
    {number : Nat}
    (member : line ∈ code)
    (mentioned : line.number? = some number) :
    ∃ frame : Frame,
      1 ≤ number ∧
        constructs[number - 1]? = some frame.construct ∧
        line ∈ frame.lines number ∧
        frame.lines number ⊆ code := by
  obtain ⟨above, within⟩ := nested.number_bounds member mentioned
  obtain ⟨frame, owner, shape⟩ := nested.exists_frame above within
  refine ⟨frame, above, owner, ?_, ?_⟩
  · rw [← shape]
    exact List.mem_filter.mpr ⟨member, Line.mentions_iff.mpr mentioned⟩
  · rw [← shape]
    exact List.filter_subset_self code

/-- No label is defined twice. -/
theorem nodup_labels
    {after : Nat}
    {constructs : List Construct}
    {code : List Line}
    (nested : Nested 0 constructs code after) :
    (labels code).Nodup := by
  rw [List.nodup_iff_pairwise_ne, labels, List.pairwise_filterMap,
    List.pairwise_iff_forall_sublist]
  intro first second ordered label firstLabel other secondLabel same
  subst other
  have firstMentions : first.number? = some label.number := by
    rw [Line.label?_eq_some.mp firstLabel]
    rfl
  have secondMentions : second.number? = some label.number := by
    rw [Line.label?_eq_some.mp secondLabel]
    rfl
  obtain ⟨frame, inFrame⟩ :=
    nested.frame_of_pair ordered firstMentions secondMentions
  have twice := inFrame.filterMap Line.label?
  simp only [List.filterMap_cons, firstLabel, secondLabel,
    List.filterMap_nil] at twice
  exact List.nodup_iff_sublist.mp (frame.nodup_labels_lines label.number)
    label twice

/--
A label with a number within the range is defined if it is a landmark
of that construct.
-/
theorem label_mem_iff
    {after : Nat}
    {constructs : List Construct}
    {code : List Line}
    (nested : Nested 0 constructs code after)
    (landmark : Landmark)
    (number : Nat) :
    Line.label ⟨landmark, number⟩ ∈ code ↔
      1 ≤ number ∧
        ∃ construct,
          constructs[number - 1]? = some construct ∧
            landmark ∈ construct.landmarks := by
  constructor
  · intro member
    obtain ⟨frame, positive, owner, inFrame, -⟩ :=
      nested.frame_of_member member rfl
    exact ⟨positive, frame.construct, owner, Frame.label_mem_lines.mp inFrame⟩
  · rintro ⟨positive, construct, owner, isLandmark⟩
    have within : number ≤ after := by
      have inRange := (List.getElem?_eq_some_iff.mp owner).1
      have count := nested.after_eq
      omega
    obtain ⟨frame, frameOwner, shape⟩ := nested.exists_frame positive within
    obtain rfl : construct = frame.construct :=
      Option.some.inj (owner.symm.trans frameOwner)
    have inFrame : Line.label ⟨landmark, number⟩ ∈ frame.lines number :=
      Frame.label_mem_lines.mpr isLandmark
    rw [← shape] at inFrame
    exact List.mem_of_mem_filter inFrame

/--
Where a number is mentioned between two mentions of another one, all
its mentions are.
-/
theorem extent_inside
    {after : Nat}
    {constructs : List Construct}
    {code : List Line}
    (nested : Nested 0 constructs code after)
    {one other first last otherFirst otherLast position : Nat}
    (extent : Extent code one first last)
    (otherExtent : Extent code other otherFirst otherLast)
    (fromFirst : first ≤ position)
    (toLast : position ≤ last)
    (mentioned : code[position]?.bind Line.number? = some other) :
    first ≤ otherFirst ∧ otherLast ≤ last := by
  obtain ⟨line, lineAt, lineNumber⟩ :=
    Option.bind_eq_some_iff.mp extent.firstMentions
  obtain ⟨above, within⟩ :=
    nested.number_bounds (List.mem_of_getElem? lineAt) lineNumber
  obtain ⟨low, high, isSealed⟩ := nested.exists_sealed above within
  -- The range is the sealed stretch, which both ends of the other
  -- range belong to.
  have lowBound := extent.between isSealed.firstMentions
  have highBound := extent.between isSealed.lastMentions
  have firstInside :=
    isSealed.closed (Nat.le_refl low) isSealed.ordered
      isSealed.firstMentions extent.firstMentions
  have lastInside :=
    isSealed.closed (Nat.le_refl low) isSealed.ordered
      isSealed.firstMentions extent.lastMentions
  have otherFirstInside :=
    isSealed.closed (by omega) (by omega) mentioned otherExtent.firstMentions
  have otherLastInside :=
    isSealed.closed (by omega) (by omega) mentioned otherExtent.lastMentions
  omega

/-- Lines that mention different numbers stand at different positions. -/
theorem position_ne
    {code : List Line}
    {one other first second : Nat}
    (different : one ≠ other)
    (firstMentions : code[first]?.bind Line.number? = some one)
    (secondMentions : code[second]?.bind Line.number? = some other) :
    first ≠ second := by
  rintro rfl
  rw [firstMentions, Option.some.injEq] at secondMentions
  exact different secondMentions

/-- Labels and jumps of nested code are structured. -/
theorem structured
    {after : Nat}
    {constructs : List Construct}
    {code : List Line}
    (nested : Nested 0 constructs code after) :
    Structured constructs code where
  namesUnique :=
    nested.nodup_labels.map fun _ _ same => Label.name_inj.mp same
  targetsDefined := by
    intro line condition target member jumps
    obtain ⟨frame, -, -, inFrame, isPart⟩ :=
      nested.frame_of_member member (by rw [Line.number?, jumps]; rfl)
    obtain ⟨destination, definedAt⟩ :=
      List.mem_iff_getElem?.mp (isPart (Frame.target_mem_lines inFrame jumps))
    exact ⟨destination, labelPosition?_eq_some nested.nodup_labels definedAt⟩
  numbersUsed := by
    intro number
    have count := nested.after_eq
    constructor
    · rintro ⟨line, member, mentioned⟩
      have bounds := nested.number_bounds member mentioned
      omega
    · rintro ⟨positive, within⟩
      obtain ⟨frame, -, shape⟩ := nested.exists_frame positive (by omega)
      obtain ⟨line, inFrame⟩ := frame.exists_mem_lines number
      rw [← shape] at inFrame
      obtain ⟨inCode, mentioned⟩ := List.mem_filter.mp inFrame
      exact ⟨line, inCode, Line.mentions_iff.mp mentioned⟩
  labelsPaired :=
    nested.label_mem_iff
  forward := by
    intro source destination condition target jumps resolved notLoop
    obtain ⟨line, lineAt, lineJumps⟩ := Option.bind_eq_some_iff.mp jumps
    have definedAt := label_of_labelPosition? resolved
    by_contra notBefore
    have different : source ≠ destination := by
      rintro rfl
      rw [definedAt, Option.some.injEq] at lineAt
      subst lineAt
      cases lineJumps
    obtain ⟨frame, inFrame⟩ :=
      nested.frame_of_pair (pair_sublist definedAt lineAt (by omega))
        rfl (by rw [Line.number?, lineJumps]; rfl)
    exact List.pairwise_iff_forall_sublist.mp
      (frame.pairwise_forward target.number)
      inFrame condition target.landmark target.number rfl notLoop lineJumps
  backward := by
    intro source destination number condition jumps resolved
    obtain ⟨line, lineAt, lineJumps⟩ := Option.bind_eq_some_iff.mp jumps
    have definedAt := label_of_labelPosition? resolved
    obtain ⟨unconditional, followed⟩ :=
      (LoopsClosed.of_nested nested).getElem?_succ jumps
    refine ⟨unconditional, ?_, followed⟩
    by_contra notBehind
    have different : source ≠ destination := by
      rintro rfl
      rw [definedAt, Option.some.injEq] at lineAt
      subst lineAt
      cases lineJumps
    obtain ⟨frame, inFrame⟩ :=
      nested.frame_of_pair (pair_sublist lineAt definedAt (by omega))
        (by rw [Line.number?, lineJumps]; rfl) rfl
    exact List.pairwise_iff_forall_sublist.mp (frame.pairwise_backward number)
      inFrame condition number lineJumps rfl
  rangesNested := by
    intro one other first last otherFirst otherLast different extent otherExtent
    have firstNe :=
      position_ne different extent.firstMentions otherExtent.firstMentions
    have lastNe :=
      position_ne different extent.lastMentions otherExtent.lastMentions
    have ordered := extent.between extent.lastMentions
    have otherOrdered := otherExtent.between otherExtent.lastMentions
    by_cases otherInside : first ≤ otherFirst ∧ otherFirst ≤ last
    · have inside := nested.extent_inside extent otherExtent
        otherInside.1 otherInside.2 otherExtent.firstMentions
      omega
    · by_cases oneInside : otherFirst ≤ first ∧ first ≤ otherLast
      · have inside := nested.extent_inside otherExtent extent
          oneInside.1 oneInside.2 extent.firstMentions
        omega
      · omega

end Nested

end Coprocessor.Assembly
