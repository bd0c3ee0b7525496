import Coprocessor.Proofs.Report.Graph

namespace Coprocessor

/-!
# Quotation of labels

A label stands between quotes, and whoever reads it takes a backslash together
with the character behind it. Marking a label puts a backslash before each
delimiter and leaves the backslashes that are there alone, so that one of these
can use up the backslash of a delimiter behind it. A label without backslashes
is read back as it was, and no other label is.
-/

namespace Report

/-- The characters that end a label or divide it into fields. -/
def delimiters : List Char :=
  ['"', '<', '>', '\x7b', '\x7d', '|']

/--
What is taken at once from a label: a character, an escaped one, or a
backslash at its end.
-/
inductive LabelUnit where
  | plain (character : Char)
  | escaped (character : Char)
  | cut
  deriving Repr, DecidableEq

namespace LabelUnit

/-- The text of a unit. -/
def written : LabelUnit → List Char
  | .plain character => [character]
  | .escaped character => ['\\', character]
  | .cut => ['\\']

/-- The text of a unit without the backslash that escapes. -/
def meant : LabelUnit → List Char
  | .plain character | .escaped character => [character]
  | .cut => []

end LabelUnit

/--
The units of a text, of which the first may be behind a backslash
that is already taken.
-/
def unitsFrom : Bool → List Char → List LabelUnit
  | false, [] => []
  | true, [] => [.cut]
  | true, character :: rest => .escaped character :: unitsFrom false rest
  | false, character :: rest =>
      if character = '\\' then
        unitsFrom true rest
      else
        .plain character :: unitsFrom false rest

/-- The units of a label, read from the left. -/
def labelUnits (label : List Char) : List LabelUnit :=
  unitsFrom false label

/-- A label that stands for a text between quotes. -/
structure Quotes
    (label raw : List Char) :
    Prop where
  guarded : ∀ sign ∈ delimiters, .plain sign ∉ labelUnits label
  complete : .cut ∉ labelUnits label
  faithful : (labelUnits label).flatMap LabelUnit.meant = raw

/-- How many backslashes stand at the end of a text. -/
def closingBackslashes (text : List Char) : Nat :=
  (text.rtakeWhile (· = '\\')).length

/-- A backslash that is already taken, as a text. -/
def owed (pending : Bool) : List Char :=
  if pending then ['\\'] else []

/-- A reader takes every character, and all of them in their order. -/
theorem flatMap_written_unitsFrom
    (pending : Bool)
    (text : List Char) :
    (unitsFrom pending text).flatMap LabelUnit.written =
      owed pending ++ text := by
  induction text generalizing pending with
  | nil =>
      cases pending <;> rfl
  | cons character rest inductionHypothesis =>
      cases pending with
      | true =>
          rw [unitsFrom, List.flatMap_cons, inductionHypothesis]
          rfl
      | false =>
          rw [unitsFrom]
          split
          case isTrue isBackslash =>
              rw [inductionHypothesis, isBackslash]
              rfl
          case isFalse =>
              rw [List.flatMap_cons, inductionHypothesis]
              rfl

theorem isMarked_iff {character : Char} :
    isMarked character = true ↔ character ∈ delimiters := by
  rw [isMarked, delimiters, List.contains_iff_mem]

theorem ne_backslash_of_mem
    {character : Char}
    (isDelimiter : character ∈ delimiters) :
    character ≠ '\\' := by
  rintro rfl
  revert isDelimiter
  decide

/--
Whether a backslash waits for its character behind a character of a
text that is marked.
-/
def waits (pending : Bool) (character : Char) : Bool :=
  !pending && decide (character = '\\')

/-- The units that a character of a text adds when the text is marked. -/
def addedUnits (pending : Bool) (character : Char) : List LabelUnit :=
  if character ∈ delimiters then
    if pending then [.escaped '\\', .plain character] else [.escaped character]
  else if pending then
    [.escaped character]
  else if character = '\\' then
    []
  else
    [.plain character]

/-- What one character of a text does to a reader of the marked text. -/
theorem unitsFrom_markLabel_cons
    (pending : Bool)
    (character : Char)
    (rest : List Char) :
    unitsFrom pending (markLabel (character :: rest)) =
      addedUnits pending character ++
        unitsFrom (waits pending character) (markLabel rest) := by
  rw [markLabel_cons, addedUnits, waits]
  by_cases isDelimiter : character ∈ delimiters
  · have different := ne_backslash_of_mem isDelimiter
    rw [if_pos (isMarked_iff.mpr isDelimiter), if_pos isDelimiter]
    cases pending <;> simp [unitsFrom, different]
  · rw [if_neg (mt isMarked_iff.mp isDelimiter), if_neg isDelimiter]
    cases pending with
    | true =>
        simp [unitsFrom]
    | false =>
        by_cases isBackslash : character = '\\' <;>
          simp [unitsFrom, isBackslash]

/-- Whether a backslash waits for its character behind a text that is marked. -/
def waitsAfter (pending : Bool) (text : List Char) : Bool :=
  text.foldl waits pending

/-- Backslashes at the end of a text are taken in pairs. -/
theorem waitsAfter_iff (text : List Char) :
    waitsAfter false text = true ↔ Odd (closingBackslashes text) := by
  induction text using List.reverseRecOn with
  | nil =>
      simp [waitsAfter, closingBackslashes]
  | append_singleton front character inductionHypothesis =>
      rw [waitsAfter, closingBackslashes] at inductionHypothesis ⊢
      rw [List.foldl_concat, waits, List.rtakeWhile_concat]
      by_cases isBackslash : character = '\\'
      · simp [isBackslash, Nat.odd_add_one, ← inductionHypothesis]
      · simp [isBackslash]

theorem plain_mem_addedUnits
    {sign : Char}
    (isDelimiter : sign ∈ delimiters)
    (pending : Bool)
    (character : Char) :
    .plain sign ∈ addedUnits pending character ↔
      character = sign ∧ pending = true := by
  have different : character ∉ delimiters → sign ≠ character := by
    rintro outside rfl
    exact outside isDelimiter
  rw [addedUnits]
  split_ifs <;> simp_all [eq_comm]

/-- A delimiter loses its backslash to one in front of it that still waits. -/
theorem plain_mem_unitsFrom
    {sign : Char}
    (isDelimiter : sign ∈ delimiters)
    (pending : Bool)
    (raw : List Char) :
    .plain sign ∈ unitsFrom pending (markLabel raw) ↔
      ∃ front rest,
        raw = front ++ sign :: rest ∧ waitsAfter pending front = true := by
  induction raw generalizing pending with
  | nil =>
      cases pending <;> simp [markLabel, unitsFrom]
  | cons character raw inductionHypothesis =>
      rw [unitsFrom_markLabel_cons, List.mem_append,
        plain_mem_addedUnits isDelimiter, inductionHypothesis]
      constructor
      · rintro (⟨rfl, isPending⟩ | ⟨front, rest, rfl, isWaiting⟩)
        · exact ⟨[], raw, rfl, isPending⟩
        · exact ⟨character :: front, rest, rfl, isWaiting⟩
      · rintro ⟨front, rest, split, isWaiting⟩
        rcases List.cons_eq_append_iff.mp split with
          ⟨rfl, same⟩ | ⟨front, rfl, rfl⟩
        · cases same
          exact .inl ⟨rfl, isWaiting⟩
        · exact .inr ⟨front, rest, rfl, isWaiting⟩

/--
The marked text ends in the middle of an escape if a backslash waits behind it.
-/
theorem cut_mem_unitsFrom
    (pending : Bool)
    (raw : List Char) :
    .cut ∈ unitsFrom pending (markLabel raw) ↔
      waitsAfter pending raw = true := by
  induction raw generalizing pending with
  | nil =>
      cases pending <;> simp [markLabel, unitsFrom, waitsAfter]
  | cons character raw inductionHypothesis =>
      have notAdded : .cut ∉ addedUnits pending character := by
        rw [addedUnits]
        split_ifs <;> simp
      rw [unitsFrom_markLabel_cons, List.mem_append, inductionHypothesis,
        or_iff_right notAdded]
      rfl

/-- Whether a delimiter comes first in a text. -/
def Leads (text : List Char) : Prop :=
  ∃ sign ∈ delimiters, text.head? = some sign

/-- Whether every backslash of a text stands directly before a delimiter. -/
def EachLeads (text : List Char) : Prop :=
  ∀ front rest, text = front ++ '\\' :: rest → Leads rest

theorem eachLeads_cons
    {character : Char}
    {text : List Char} :
    EachLeads (character :: text) ↔
      (character = '\\' → Leads text) ∧ EachLeads text := by
  constructor
  · intro each
    refine ⟨?_,
      fun front rest split => each (character :: front) rest (congrArg _ split)⟩
    rintro rfl
    exact each [] text rfl
  · rintro ⟨first, later⟩ front rest split
    rcases List.cons_eq_append_iff.mp split with ⟨rfl, same⟩ | ⟨front, rfl, rfl⟩
    · cases same
      exact first rfl
    · exact later front rest rfl

theorem leads_cons_iff
    {character : Char}
    {text : List Char} :
    Leads (character :: text) ↔ character ∈ delimiters := by
  simp [Leads]

/--
A waiting backslash is lost unless a delimiter comes next. Nothing else is lost,
and nothing is added.
-/
theorem meant_addedUnits
    (pending : Bool)
    (character : Char) :
    (addedUnits pending character).flatMap LabelUnit.meant ++
      owed (waits pending character) =
      (if pending = true ∧ character ∉ delimiters then [] else owed pending) ++
        [character] := by
  by_cases isDelimiter : character ∈ delimiters
  · have different := ne_backslash_of_mem isDelimiter
    cases pending <;>
      simp [addedUnits, isDelimiter, different, waits, owed, LabelUnit.meant]
  · by_cases isBackslash : character = '\\' <;> cases pending <;>
      simp_all [addedUnits, waits, owed, LabelUnit.meant]

/-- A reader of a marked text never finds more than the text. -/
theorem length_meant_unitsFrom_le
    (pending : Bool)
    (raw : List Char) :
    ((unitsFrom pending (markLabel raw)).flatMap LabelUnit.meant).length ≤
      (owed pending).length + raw.length := by
  induction raw generalizing pending with
  | nil =>
      cases pending <;> simp [markLabel, unitsFrom, LabelUnit.meant]
  | cons character raw inductionHypothesis =>
      have later := inductionHypothesis (waits pending character)
      have step := congrArg List.length (meant_addedUnits pending character)
      rw [unitsFrom_markLabel_cons, List.flatMap_append, List.length_append]
      rw [List.length_append, List.length_append, List.length_singleton] at step
      rw [List.length_cons]
      split_ifs at step
      · rw [List.length_nil] at step
        omega
      · omega

/-- Where a backslash is lost the text is not found again, whatever follows. -/
theorem meant_ne_of_lost
    {character : Char}
    (outside : character ∉ delimiters)
    (raw : List Char) :
    (unitsFrom true (markLabel (character :: raw))).flatMap LabelUnit.meant ≠
      owed true ++ character :: raw := by
  intro same
  have step := congrArg List.length (meant_addedUnits true character)
  have later := length_meant_unitsFrom_le (waits true character) raw
  have sameLength := congrArg List.length same
  rw [if_pos ⟨rfl, outside⟩, List.length_append] at step
  rw [unitsFrom_markLabel_cons, List.flatMap_append,
    List.length_append] at sameLength
  simp only [owed, List.nil_append, List.length_append, List.length_cons,
    List.length_nil, ↓reduceIte] at step later sameLength
  omega

/-- Where no backslash is lost, one waits exactly behind a backslash. -/
theorem waits_eq_of_kept
    {pending : Bool}
    {character : Char}
    (kept : pending = true → character ∈ delimiters) :
    waits pending character = decide (character = '\\') := by
  cases pending with
  | false =>
      rfl
  | true =>
      exact (decide_eq_false (ne_backslash_of_mem (kept rfl))).symm

/--
A reader finds the text again if every backslash in it stands before a
delimiter, whose own backslash then escapes it.
-/
theorem meant_unitsFrom_iff
    (pending : Bool)
    (raw : List Char) :
    (unitsFrom pending (markLabel raw)).flatMap LabelUnit.meant =
      owed pending ++ raw ↔
      (pending = true → Leads raw) ∧ EachLeads raw := by
  induction raw generalizing pending with
  | nil =>
      cases pending <;>
        simp [markLabel, unitsFrom, LabelUnit.meant, owed, Leads, EachLeads]
  | cons character raw inductionHypothesis =>
      rw [leads_cons_iff, eachLeads_cons]
      by_cases lost : pending = true ∧ character ∉ delimiters
      · obtain ⟨rfl, outside⟩ := lost
        exact iff_of_false (meant_ne_of_lost outside raw) fun leads =>
          outside (leads.1 rfl)
      · have kept : pending = true → character ∈ delimiters := fun isPending =>
          by_contra fun outside => lost ⟨isPending, outside⟩
        have step := meant_addedUnits pending character
        rw [if_neg lost] at step
        have regroup : owed pending ++ character :: raw =
            (addedUnits pending character).flatMap LabelUnit.meant ++
              (owed (waits pending character) ++ raw) := by
          rw [← List.append_assoc, step, List.append_assoc,
            List.singleton_append]
        rw [unitsFrom_markLabel_cons, List.flatMap_append, regroup,
          List.append_cancel_left_eq, inductionHypothesis,
          waits_eq_of_kept kept, decide_eq_true_iff]
        exact (and_iff_right kept).symm

theorem waitsAfter_of_not_mem
    {text : List Char}
    (absent : '\\' ∉ text) :
    waitsAfter false text = false := by
  induction text with
  | nil =>
      rfl
  | cons character text inductionHypothesis =>
      obtain ⟨different, later⟩ := not_or.mp (mt List.mem_cons.mpr absent)
      have stays : waits false character = false := by
        simp [waits, Ne.symm different]
      rw [waitsAfter, List.foldl_cons, stays]
      exact inductionHypothesis later

/--
A marked label stands for its text exactly if the text holds no backslash.
-/
theorem quotes_markLabel_iff (raw : List Char) :
    Quotes (markLabel raw) raw ↔ '\\' ∉ raw := by
  constructor
  · intro quotes member
    -- The first backslash stands before a delimiter, which is then read as it
    -- is.
    obtain ⟨front, rest, rfl, notBefore⟩ := List.eq_append_cons_of_mem member
    have each := ((meant_unitsFrom_iff false _).mp quotes.faithful).2
    obtain ⟨sign, isDelimiter, isNext⟩ := each front rest rfl
    obtain ⟨later, rfl⟩ := List.head?_eq_some_iff.mp isNext
    have isWaiting : waitsAfter false (front ++ ['\\']) = true := by
      have before := waitsAfter_of_not_mem notBefore
      rw [waitsAfter] at before ⊢
      rw [List.foldl_concat, before]
      rfl
    exact quotes.guarded sign isDelimiter
      ((plain_mem_unitsFrom isDelimiter false _).mpr
        ⟨front ++ ['\\'], later, by simp, isWaiting⟩)
  · intro absent
    constructor
    · intro sign isDelimiter isPlain
      obtain ⟨front, rest, rfl, isWaiting⟩ :=
        (plain_mem_unitsFrom isDelimiter false _).mp isPlain
      rw [waitsAfter_of_not_mem fun member =>
        absent (List.mem_append_left _ member)] at isWaiting
      cases isWaiting
    · intro isCut
      have isWaiting := (cut_mem_unitsFrom false raw).mp isCut
      rw [waitsAfter_of_not_mem absent] at isWaiting
      cases isWaiting
    · refine (meant_unitsFrom_iff false raw).mpr
        ⟨nofun, fun front rest split => ?_⟩
      exact absurd
        (split ▸ List.mem_append_right front List.mem_cons_self) absent

theorem backslash_mem_nodeTitle_iff (node : Node) :
    '\\' ∈ (nodeTitle node).toList ↔ '\\' ∈ node.tag.toList := by
  have notDigit : ¬ Char.isDigit '\\' = true := by
    decide
  have notInNumber : '\\' ∉ (toString node.id).toList := fun member =>
    notDigit (isDigit_of_mem_number member)
  have notInFrame : '\\' ∉ " (".toList ∧ '\\' ∉ ")".toList := by
    decide
  simp only [nodeTitle, String.toList_append, List.mem_append, notInNumber,
    notInFrame, or_false]

/--
How the label of a text is read. The units spell the label. A delimiter is
read without a backslash exactly where an odd number of backslashes stands
before it in the text, the label ends in the middle of an escape exactly if an
odd number of them ends the text, and the text is found again exactly if each
of its backslashes stands before a delimiter. So a label is a quotation
exactly of a text without backslashes, and in the line of a node exactly if
the tag holds none.
-/
theorem labels_quoted_iff (raw : List Char) :
    (labelUnits (markLabel raw)).flatMap LabelUnit.written = markLabel raw ∧
      (∀ sign ∈ delimiters,
        .plain sign ∈ labelUnits (markLabel raw) ↔
          ∃ front rest,
            raw = front ++ sign :: rest ∧ Odd (closingBackslashes front)) ∧
      (.cut ∈ labelUnits (markLabel raw) ↔ Odd (closingBackslashes raw)) ∧
      ((labelUnits (markLabel raw)).flatMap LabelUnit.meant = raw ↔
        EachLeads raw) ∧
      (Quotes (markLabel raw) raw ↔ '\\' ∉ raw) ∧
      ∀ node : Node, (nodeTitle node).toList = raw →
        (GraphItem.node node).render.toList =
            nodeOpening node.id ++ (markLabel raw ++ "\"];\n".toList) ∧
          (Quotes (markLabel raw) raw ↔ '\\' ∉ node.tag.toList) := by
  refine ⟨flatMap_written_unitsFrom false _, ?_, ?_, ?_,
    quotes_markLabel_iff raw, ?_⟩
  · intro sign isDelimiter
    simp only [← waitsAfter_iff]
    exact plain_mem_unitsFrom isDelimiter false raw
  · rw [← waitsAfter_iff]
    exact cut_mem_unitsFrom false raw
  · exact (meant_unitsFrom_iff false raw).trans (and_iff_right nofun)
  · rintro node rfl
    constructor
    · rw [GraphItem.toList_render, GraphItem.text, nodeClosing,
        List.append_assoc, List.append_assoc]
      rfl
    · rw [quotes_markLabel_iff, backslash_mem_nodeTitle_iff]

end Report

namespace Program

open Report

/-- A program whose only tag is a backslash and a quote. -/
def masked : String :=
  "(program \"\\\\\\\"\")"

/-- The program that the text stands for. -/
def maskedProgram : Program :=
  let (store, root) := Store.empty.addTree (.leaf "\\\"")
  ⟨store, .empty, root⟩

/--
The backslash of the tag escapes the one that marks the quote, and the
quote ends the label.
-/
theorem quote_ends_label :
    read masked = .ok maskedProgram ∧
      graphItems maskedProgram.tree = [.node ⟨1, "\\\""⟩] ∧
      labelUnits (markLabel (nodeTitle ⟨1, "\\\""⟩).toList) =
        [.escaped '\\', .plain '"', .plain ' ', .plain '(', .plain '1',
          .plain ')'] ∧
      ¬ Quotes (markLabel (nodeTitle ⟨1, "\\\""⟩).toList)
        (nodeTitle ⟨1, "\\\""⟩).toList := by
  have units : labelUnits (markLabel (nodeTitle ⟨1, "\\\""⟩).toList) =
      [.escaped '\\', .plain '"', .plain ' ', .plain '(', .plain '1',
        .plain ')'] := by
    decide
  refine ⟨rfl, by decide, units,
    fun quotes => quotes.guarded '"' (by decide) ?_⟩
  rw [units]
  decide

end Program

end Coprocessor
