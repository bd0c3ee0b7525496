import Coprocessor.Proofs.Report.Graph
import Coprocessor.Proofs.Tree.Unfolding

namespace Coprocessor

/-!
# What an outline tells

An outline lists the nodes of a tree, each below the right subtree and above the
left one, and shows the depth of a node by its indentation alone. If no tag
holds a blank, the spaces of a row give its depth, the last of them ends the
tag, and the row of the root is the only one without indentation. What stands
above that row is the right subtree and what stands below it the left one, so
that two trees with one outline are equal.
-/

/-- Whether no character of a tag is blank. -/
def BlankFree (tag : String) : Prop :=
  ∀ character ∈ tag.toList, Text.isBlank character = false

instance : DecidablePred BlankFree := fun tag =>
  decidable_of_iff
    (tag.toList.all (fun character => !Text.isBlank character) = true) (by
    simp [BlankFree])

theorem BlankFree.not_mem
    {tag : String}
    (free : BlankFree tag)
    (blank : Char)
    (isBlank : Text.isBlank blank = true) :
    blank ∉ tag.toList := by
  intro member
  rw [free blank member] at isBlank
  cases isBlank

namespace Report

/-- The number of a node as it stands behind its tag. -/
def numberText (id : Nat) : List Char :=
  '(' :: ((toString id).toList ++ [')'])

theorem not_mem_numberText
    (character : Char)
    (outside : character ∉ ['(', ')'])
    (notDigit : character.isDigit = false)
    (id : Nat) :
    character ∉ numberText id := by
  have notInNumber : character ∉ (toString id).toList := by
    intro member
    rw [isDigit_of_mem_number member] at notDigit
    cases notDigit
  simp_all [numberText]

theorem numberText_inj
    {first second : Nat}
    (same : numberText first = numberText second) :
    first = second := by
  have ends : ∀ character ∈ [')'].head?, character.isDigit = false := by
    rintro character ⟨⟩
    decide
  have read := takeNumber?_append first ends
  rw [List.tail_eq_of_cons_eq same, takeNumber?_append second ends] at read
  cases read
  rfl

namespace OutlineRow

/-- The text of a row without the line feed that ends it. -/
def text (row : OutlineRow) : List Char :=
  List.replicate (4 * row.depth) ' ' ++
    (row.node.tag.toList ++ ' ' :: numberText row.node.id)

theorem toList_render (row : OutlineRow) :
    row.render.toList = row.text ++ ['\n'] := by
  simp [render, text, nodeTitle, numberText]

section

variable
    {row : OutlineRow}
    (free : BlankFree row.node.tag)

include free

theorem feed_not_mem_text : '\n' ∉ row.text := by
  have inTag := free.not_mem '\n' (by decide)
  have inNumber := not_mem_numberText '\n' (by decide) (by decide) row.node.id
  simp [text, inTag, inNumber]

/-- The spaces of a row are those of its indentation and one more. -/
theorem count_space_text : row.text.count ' ' = 4 * row.depth + 1 := by
  have inTag := free.not_mem ' ' (by decide)
  have inNumber := not_mem_numberText ' ' (by decide) (by decide) row.node.id
  rw [text, List.count_append, List.count_append, List.count_replicate_self,
    List.count_eq_zero.mpr inTag, List.count_cons_self,
    List.count_eq_zero.mpr inNumber, Nat.zero_add, Nat.zero_add]

/-- The text behind the indentation can be taken apart at its only space. -/
theorem parts_eq
    {depth : Nat}
    {tag number : List Char}
    (same : row.text = List.replicate (4 * depth) ' ' ++ (tag ++ ' ' :: number))
    (sameDepth : row.depth = depth) :
    row.node.tag.toList = tag ∧ numberText row.node.id = number := by
  have inTag := free.not_mem ' ' (by decide)
  have inNumber := not_mem_numberText ' ' (by decide) (by decide) row.node.id
  rw [text, sameDepth, List.append_cancel_left_eq,
    List.append_cons_inj_of_notMem inTag inNumber] at same
  exact ⟨same.1, same.2.2⟩

end

/-- Two rows without blanks in their tags that read the same are the same. -/
theorem eq_of_text
    {first second : OutlineRow}
    (firstFree : BlankFree first.node.tag)
    (secondFree : BlankFree second.node.tag)
    (same : first.text = second.text) :
    first = second := by
  have sameDepth : first.depth = second.depth := by
    have counts := congrArg (List.count ' ') same
    rw [count_space_text firstFree, count_space_text secondFree] at counts
    omega
  obtain ⟨sameTag, sameNumber⟩ := parts_eq firstFree same sameDepth
  have sameId := numberText_inj sameNumber
  rw [String.toList_inj] at sameTag
  obtain ⟨firstDepth, firstId, firstTag⟩ := first
  obtain ⟨secondDepth, secondId, secondTag⟩ := second
  dsimp only at sameDepth sameTag sameId
  rw [sameDepth, sameTag, sameId]

/-- No row reads like the outline of nothing. -/
theorem text_ne_empty
    {row : OutlineRow}
    (free : BlankFree row.node.tag) :
    row.text ≠ "(empty tree)".toList := by
  intro same
  have sameDepth : row.depth = 0 := by
    have counts := congrArg (List.count ' ') same
    rw [count_space_text free] at counts
    have one : "(empty tree)".toList.count ' ' = 1 := by
      decide
    omega
  have shape : row.text =
      List.replicate (4 * 0) ' ' ++
        ("(empty".toList ++ ' ' :: "tree)".toList) :=
    same
  obtain ⟨-, wrong⟩ := parts_eq free shape sameDepth
  cases wrong

end OutlineRow

/-- The rows of texts can be read from the texts. -/
theorem eq_of_map_text
    {first second : List OutlineRow}
    (firstFree : ∀ row ∈ first, BlankFree row.node.tag)
    (secondFree : ∀ row ∈ second, BlankFree row.node.tag)
    (same : first.map OutlineRow.text = second.map OutlineRow.text) :
    first = second := by
  induction first generalizing second with
  | nil =>
      exact (List.map_eq_nil_iff.mp same.symm).symm
  | cons row rest inductionHypothesis =>
      obtain ⟨other, others, rfl, sameText, sameRest⟩ :=
        List.map_eq_cons_iff.mp same.symm
      obtain ⟨rowFree, restFree⟩ := List.forall_mem_cons.mp firstFree
      obtain ⟨otherFree, othersFree⟩ := List.forall_mem_cons.mp secondFree
      rw [OutlineRow.eq_of_text rowFree otherFree sameText.symm,
        inductionHypothesis restFree othersFree sameRest.symm]

/-- No row of a tree is less deep than its root. -/
theorem depth_le_of_mem
    {depth : Nat}
    {tree : Tree Node}
    {row : OutlineRow}
    (member : row ∈ outlineRows depth tree) :
    depth ≤ row.depth := by
  induction tree generalizing depth with
  | absent =>
      cases member
  | node label left right leftDeeper rightDeeper =>
      rcases List.mem_append.mp member with inRight | inRest
      · exact Nat.le_of_succ_le (rightDeeper inRight)
      · rcases List.mem_cons.mp inRest with rfl | inLeft
        · exact Nat.le_refl depth
        · exact Nat.le_of_succ_le (leftDeeper inLeft)

/-- The row of a root is not among the rows of trees below it. -/
theorem not_mem_below
    (depth : Nat)
    (label : Node)
    (tree : Tree Node) :
    ⟨depth, label⟩ ∉ outlineRows (depth + 1) tree :=
  fun member => Nat.not_succ_le_self depth (depth_le_of_mem member)

/-- Rows with their depths determine the tree. -/
theorem eq_of_outlineRows
    {depth : Nat}
    {first second : Tree Node}
    (same : outlineRows depth first = outlineRows depth second) :
    first = second := by
  induction first generalizing depth second with
  | absent =>
      cases second with
      | absent =>
          rfl
      | node label left right =>
          cases List.append_ne_nil_of_right_ne_nil _ (List.cons_ne_nil _ _)
            same.symm
  | node label left right leftSame rightSame =>
      cases second with
      | absent =>
          cases List.append_ne_nil_of_right_ne_nil _ (List.cons_ne_nil _ _) same
      | node otherLabel otherLeft otherRight =>
          obtain ⟨above, root, below⟩ :=
            (List.append_cons_inj_of_notMem
              (not_mem_below depth otherLabel right)
              (not_mem_below depth otherLabel left)).mp same
          rw [leftSame below, rightSame above, (OutlineRow.mk.inj root).2]

/-- The nodes in the rows are the labels at the ends of all paths. -/
theorem forall_mem_outlineRows_iff
    (Holds : Node → Prop)
    {depth : Nat}
    {tree : Tree Node} :
    (∀ row ∈ outlineRows depth tree, Holds row.node) ↔
      ∀ path label, tree.labelAt? path = some label → Holds label := by
  induction tree generalizing depth with
  | absent =>
      simp [outlineRows, Tree.labelAt?_absent]
  | node label left right leftHolds rightHolds =>
      rw [outlineRows, List.forall_mem_append, List.forall_mem_cons, leftHolds,
        rightHolds]
      constructor
      · rintro ⟨inRight, atRoot, inLeft⟩ path reached found
        cases path with
        | nil =>
            obtain rfl := Option.some.inj found
            exact atRoot
        | cons side path =>
            cases side with
            | left =>
                exact inLeft path reached found
            | right =>
                exact inRight path reached found
      · intro onPaths
        exact ⟨fun path => onPaths (.right :: path), onPaths [] label rfl,
          fun path => onPaths (.left :: path)⟩

/--
The lines of an outline, those of its rows or the one that tells of
an absent tree.
-/
def outlineLines (tree : Tree Node) : List (List Char) :=
  match tree with
  | .absent => ["(empty tree)".toList]
  | present => (outlineRows 0 present).map OutlineRow.text

theorem toList_outline (tree : Tree Node) :
    (outline tree).toList = (outlineLines tree).flatMap (· ++ ['\n']) := by
  cases tree with
  | absent =>
      rfl
  | node label left right =>
      simp only [outline, outlineLines, String.toList_join, List.flatMap_map]
      exact List.flatMap_congr fun row _ => row.toList_render

/-- The lines of an outline without blanks in the tags are found in its text. -/
theorem lines_outline
    {tree : Tree Node}
    (free : ∀ row ∈ outlineRows 0 tree, BlankFree row.node.tag) :
    Text.lines (outline tree).toList = outlineLines tree := by
  rw [toList_outline]
  apply Text.lines_flatMap
  cases tree with
  | absent =>
      exact List.forall_mem_singleton.mpr (by decide)
  | node label left right =>
      exact List.forall_mem_map.mpr fun row member =>
        OutlineRow.feed_not_mem_text (free row member)

/-- The lines of an outline determine its rows. -/
theorem outlineRows_eq_of_lines
    {first second : Tree Node}
    (firstFree : ∀ row ∈ outlineRows 0 first, BlankFree row.node.tag)
    (secondFree : ∀ row ∈ outlineRows 0 second, BlankFree row.node.tag)
    (same : outlineLines first = outlineLines second) :
    outlineRows 0 first = outlineRows 0 second := by
  have notEmpty :
      ∀ rows : List OutlineRow, (∀ row ∈ rows, BlankFree row.node.tag) →
      rows.map OutlineRow.text ≠ ["(empty tree)".toList] := by
    intro rows free equal
    obtain ⟨row, member, wrong⟩ :=
      List.mem_map.mp (equal ▸ List.mem_singleton_self _)
    exact OutlineRow.text_ne_empty (free row member) wrong
  cases first with
  | absent =>
      cases second with
      | absent =>
          rfl
      | node label left right =>
          exact absurd same.symm (notEmpty _ secondFree)
  | node label left right =>
      cases second with
      | absent =>
          exact absurd same (notEmpty _ firstFree)
      | node otherLabel otherLeft otherRight =>
          exact eq_of_map_text firstFree secondFree same

end Report

/-- The subtree at the end of a path from the root. -/
def Tree.descend
    {Label : Type}
    (tree : Tree Label) :
    List Side → Tree Label
  | [] => tree
  | side :: rest => (tree.child side).descend rest

theorem Tree.descend_absent
    {Label : Type}
    (path : List Side) :
    (Tree.absent : Tree Label).descend path = .absent := by
  induction path with
  | nil =>
      rfl
  | cons side rest inductionHypothesis =>
      cases side <;> exact inductionHypothesis

namespace Store

/--
Looking nodes up along a path gives the record of the subtree at the
end of the path.
-/
theorem Grounded.recordAt?_eq
    {store : Store}
    (grounded : store.Grounded)
    (id : Nat)
    (path : List Side) :
    store.recordAt? id path = ((store.tree id).descend path).record? := by
  induction path generalizing id with
  | nil =>
      rfl
  | cons side rest inductionHypothesis =>
      rw [recordAt?]
      rcases grounded.get?_cases id with
        ⟨missing, absent⟩ | ⟨record, found, -, -, -, -, -, shape⟩
      · rw [missing, absent, Tree.descend_absent]
        rfl
      · rw [found, shape]
        cases side with
        | left =>
            exact inductionHypothesis record.leftId
        | right =>
            exact inductionHypothesis record.rightId

/--
No node that is found from a number, along whatever path, has a
blank in its tag.
-/
def TagsBlankFree
    (store : Store)
    (root : Nat) :
    Prop :=
  ∀ path record, store.recordAt? root path = some record → BlankFree record.tag

/-- The tags that can be reached are those of the rows. -/
theorem Grounded.tagsBlankFree_iff
    {store : Store}
    (grounded : store.Grounded)
    {root : Nat} :
    store.TagsBlankFree root ↔
      ∀ row ∈ Report.outlineRows 0 (store.tree root),
        BlankFree row.node.tag := by
  have tags : ∀ path, (store.recordAt? root path).map Record.tag =
      ((store.tree root).labelAt? path).map Node.tag := by
    intro path
    rw [grounded.tag_recordAt?, Tree.labelAt?_map]
  refine Iff.trans ?_
    (Report.forall_mem_outlineRows_iff fun node => BlankFree node.tag).symm
  constructor
  · intro free path label found
    have reached := tags path
    rw [found] at reached
    obtain ⟨record, foundRecord, sameTag⟩ := Option.map_eq_some_iff.mp reached
    exact sameTag ▸ free path record foundRecord
  · intro free path record found
    have reached := tags path
    rw [found] at reached
    obtain ⟨label, foundLabel, sameTag⟩ :=
      Option.map_eq_some_iff.mp reached.symm
    exact sameTag ▸ free path label foundLabel

/--
An outline determines its tree: whatever calls have filled two stores, if no
node that can be reached from either of two numbers has a blank in its tag and
their outlines are the same text, then below the two numbers lies one tree, and
every path leads from both to nodes with the same number, tag and children or
from both to nothing.
-/
theorem outline_determines_tree
    (firstCalls secondCalls : List Call)
    (firstRoot secondRoot : Nat)
    (firstFree : (empty.applyAll firstCalls).TagsBlankFree firstRoot)
    (secondFree : (empty.applyAll secondCalls).TagsBlankFree secondRoot)
    (same :
      Report.outline ((empty.applyAll firstCalls).tree firstRoot) =
        Report.outline ((empty.applyAll secondCalls).tree secondRoot)) :
    (empty.applyAll firstCalls).tree firstRoot =
      (empty.applyAll secondCalls).tree secondRoot ∧
      ∀ path,
        (empty.applyAll firstCalls).recordAt? firstRoot path =
          (empty.applyAll secondCalls).recordAt? secondRoot path := by
  have grounded : ∀ calls : List Call, (empty.applyAll calls).Grounded :=
    grounded_empty.applyAll
  have firstRows := (grounded firstCalls).tagsBlankFree_iff.mp firstFree
  have secondRows := (grounded secondCalls).tagsBlankFree_iff.mp secondFree
  have sameLines :
      Report.outlineLines ((empty.applyAll firstCalls).tree firstRoot) =
        Report.outlineLines ((empty.applyAll secondCalls).tree secondRoot) := by
    rw [← Report.lines_outline firstRows,
      ← Report.lines_outline secondRows, same]
  have sameTree := Report.eq_of_outlineRows
    (Report.outlineRows_eq_of_lines firstRows secondRows sameLines)
  refine ⟨sameTree, fun path => ?_⟩
  rw [(grounded firstCalls).recordAt?_eq, (grounded secondCalls).recordAt?_eq,
    sameTree]

/--
A shared node without a tag and a tag like a number are told apart
from all others.
-/
theorem outline_determines_tree_shared :
    let calls : List Call := [.leaf "", .unary "(1)" 1, .binary "+" 2 1]
    let more : List Call := calls ++ [.binary "b" 3 1]
    (empty.applyAll calls).TagsBlankFree 3 ∧
      (empty.applyAll more).TagsBlankFree 3 ∧
      Report.outline ((empty.applyAll calls).tree 3) =
        "     (1)\n+ (3)\n    (1) (2)\n         (1)\n" ∧
      (empty.applyAll calls).tree 3 = (empty.applyAll more).tree 3 ∧
      ∀ path,
        (empty.applyAll calls).recordAt? 3 path =
          (empty.applyAll more).recordAt? 3 path := by
  intro calls more
  have free : (empty.applyAll calls).TagsBlankFree 3 :=
    (grounded_empty.applyAll calls).tagsBlankFree_iff.mpr (by decide)
  have moreFree : (empty.applyAll more).TagsBlankFree 3 :=
    (grounded_empty.applyAll more).tagsBlankFree_iff.mpr (by decide)
  exact ⟨free, moreFree, by decide,
    outline_determines_tree calls more 3 3 free moreFree (by decide)⟩

/-- A tag with blanks can pass for a node below another one. -/
example :
    let forged := empty.applyAll [.leaf "a (2)\n    b"]
    let copied := empty.applyAll [.leaf "b", .unary "a" 1]
    Report.outline (forged.tree 1) = Report.outline (copied.tree 2) := by
  decide

end Store

end Coprocessor
