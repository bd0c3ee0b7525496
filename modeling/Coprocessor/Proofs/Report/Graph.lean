import Coprocessor.Proofs.Assembly.LineFeeds
import Coprocessor.Proofs.Program.Grammar
import Coprocessor.Proofs.Tree.Links
import Coprocessor.Report.Graph

namespace Coprocessor

open scoped List

/-!
# Lines of a graph

Each line in the graph of a program tells of a node or of an edge. Read from the
text, these lines are the tree: its nodes in pre-order, and directly before
every node but the root the edge that leads to it from its parent. A label may
hold a line feed and so take several lines. Only the first of them starts like
the line of a node, and none of the others can be taken for an edge, since the
label has a backslash before every quote and every angle bracket.
-/

namespace Report

/-- What a line tells of: a node by its number, or an edge. -/
inductive Mark where
  | node (id : Nat)
  | edge (parent child : Nat)
  deriving Repr, DecidableEq

/-- The text in front of the first number of a line. -/
def lineStart : String :=
  "    n"

/-- The text behind the number in the line of a node. -/
def labelStart : String :=
  " [label=\""

/-- The text between the numbers in the line of an edge. -/
def arrow : String :=
  " -> n"

/-- Take a number from the front of a text. -/
def takeNumber? (text : List Char) : Option (Nat × List Char) :=
  let digits := text.takeWhile Char.isDigit
  if digits.isEmpty then
    none
  else
    some (Decimal.digitsValue digits, text.dropWhile Char.isDigit)

namespace Mark

/--
What a line tells of, if it starts like the line of a node or is the
line of an edge.
-/
def ofLine? (line : List Char) : Option Mark :=
  ((line.dropPrefix? lineStart.toList).bind takeNumber?).bind fun first =>
    if labelStart.toList.isPrefixOf first.2 then
      some (.node first.1)
    else
      ((first.2.dropPrefix? arrow.toList).bind takeNumber?).bind fun second =>
        if second.2 = [';'] then some (.edge first.1 second.1) else none

/-- The number of the node. -/
def node? : Mark → Option Nat
  | .node id => some id
  | .edge _ _ => none

/-- The numbers of the parent and of the child. -/
def edge? : Mark → Option (Nat × Nat)
  | .node _ => none
  | .edge parent child => some (parent, child)

end Mark

/-- What the line of an item tells of. -/
def GraphItem.mark : GraphItem → Mark
  | .node label => .node label.id
  | .edge parent child => .edge parent child

theorem isDigit_of_mem_number
    {number : Nat}
    {character : Char}
    (member : character ∈ (toString number).toList) :
    character.isDigit = true := by
  rw [Nat.toString_eq_repr, Nat.toList_repr] at member
  exact Nat.isDigit_of_mem_toDigits (by decide) (by decide) member

/-- A number that is written in front of something else is taken from there. -/
theorem takeNumber?_append
    (number : Nat)
    {rest : List Char}
    (ends : ∀ character ∈ rest.head?, character.isDigit = false) :
    takeNumber? ((toString number).toList ++ rest) = some (number, rest) := by
  have digits :
      ∀ character ∈ (toString number).toList, character.isDigit = true :=
    fun _ => isDigit_of_mem_number
  have nothing :
      rest.takeWhile Char.isDigit = [] ∧
        rest.dropWhile Char.isDigit = rest := by
    cases rest with
    | nil =>
        exact ⟨rfl, rfl⟩
    | cons character rest =>
        have notDigit := ends character rfl
        simp [notDigit]
  have value : Decimal.digitsValue (toString number).toList = number := by
    rw [Decimal.digitsValue, ← Nat.ofDigitChars_eq_foldl, Nat.toString_eq_repr,
      Nat.toList_repr, Nat.ofDigitChars_ten_toDigits]
  rw [takeNumber?, List.takeWhile_append_of_pos digits,
    List.dropWhile_append_of_pos digits, nothing.1, nothing.2,
    List.append_nil, value]
  simp

theorem dropPrefix?_append (front rest : List Char) :
    (front ++ rest).dropPrefix? front = some rest :=
  List.dropPrefix?_append_of_beq rest (beq_self_eq_true front)

/-- The text with which the line of a node starts. -/
def nodeOpening (id : Nat) : List Char :=
  lineStart.toList ++ ((toString id).toList ++ labelStart.toList)

/-- The line of an edge. -/
def edgeLine (parent child : Nat) : List Char :=
  lineStart.toList ++
    ((toString parent).toList ++
      (arrow.toList ++ ((toString child).toList ++ [';'])))

theorem ofLine?_nodeOpening
    (id : Nat)
    (rest : List Char) :
    Mark.ofLine? (nodeOpening id ++ rest) = some (.node id) := by
  have ends :
      ∀ character ∈ (labelStart.toList ++ rest).head?,
        character.isDigit = false := by
    rintro character ⟨⟩
    decide
  rw [Mark.ofLine?, nodeOpening, List.append_assoc, List.append_assoc,
    dropPrefix?_append, Option.bind_some, takeNumber?_append id ends,
    Option.bind_some, if_pos]
  rw [List.isPrefixOf_iff_prefix]
  exact List.prefix_append _ _

theorem ofLine?_edgeLine
    (parent child : Nat) :
    Mark.ofLine? (edgeLine parent child) = some (.edge parent child) := by
  have ends : ∀ rest : List Char, ∀ character ∈ (arrow.toList ++ rest).head?,
      character.isDigit = false := by
    rintro rest character ⟨⟩
    decide
  have ended : ∀ character ∈ [';'].head?, character.isDigit = false := by
    rintro character ⟨⟩
    decide
  have notNode : ∀ rest : List Char,
      ¬ labelStart.toList.isPrefixOf (arrow.toList ++ rest) = true := by
    intro rest
    simp [labelStart, arrow]
  rw [Mark.ofLine?, edgeLine, dropPrefix?_append, Option.bind_some,
    takeNumber?_append parent (ends _), Option.bind_some, if_neg (notNode _),
    dropPrefix?_append, Option.bind_some, takeNumber?_append child ended,
    Option.bind_some, if_pos rfl]

theorem eq_of_dropPrefix?
    {front text rest : List Char}
    (dropped : text.dropPrefix? front = some rest) :
    text = front ++ rest := by
  obtain ⟨same, shape, equal⟩ := List.dropPrefix?_eq_some_iff.mp dropped
  rw [shape, eq_of_beq equal]

theorem suffix_of_takeNumber?
    {text rest : List Char}
    {number : Nat}
    (taken : takeNumber? text = some (number, rest)) :
    rest <:+ text := by
  rw [takeNumber?] at taken
  split at taken
  · cases taken
  · cases taken
    exact List.dropWhile_suffix _

/--
Two characters that do not stand together where they would make a
node or an edge.
-/
def Apart (first second : Char) : Prop :=
  ¬(first = '=' ∧ second = '"') ∧ ¬(first = '-' ∧ second = '>')

theorem isChain_of_inside
    {line text : List Char}
    (apart : text.IsChain Apart)
    (inside : line <:+: text) :
    line.IsChain Apart := by
  obtain ⟨front, back, rfl⟩ := inside
  exact apart.left_of_append.right_of_append

/-- The line of a node holds `="` and the line of an edge `->`. -/
theorem ofLine?_of_isChain
    {line : List Char}
    (apart : line.IsChain Apart) :
    Mark.ofLine? line = none := by
  have together :
      ∀ first second, [first, second] <:+: line → Apart first second :=
    fun _ _ inside => List.isChain_pair.mp (isChain_of_inside apart inside)
  rw [Option.eq_none_iff_forall_ne_some]
  intro mark found
  obtain ⟨⟨number, behind⟩, taken, found⟩ := Option.bind_eq_some_iff.mp found
  obtain ⟨rest, dropped, number⟩ := Option.bind_eq_some_iff.mp taken
  have inLine : behind <:+ line := by
    rw [eq_of_dropPrefix? dropped]
    exact (suffix_of_takeNumber? number).trans (List.suffix_append _ _)
  dsimp only at found
  split at found
  case isTrue isNode =>
      have opening : labelStart.toList <+: behind :=
        List.isPrefixOf_iff_prefix.mp isNode
      have pair : ['=', '"'] <:+: labelStart.toList :=
        ⟨" [label".toList, [], rfl⟩
      have inside := pair.trans (opening.isInfix.trans inLine.isInfix)
      exact (together _ _ inside).1 ⟨rfl, rfl⟩
  case isFalse =>
      obtain ⟨⟨child, ending⟩, taken, found⟩ := Option.bind_eq_some_iff.mp found
      obtain ⟨target, dropped, -⟩ := Option.bind_eq_some_iff.mp taken
      have opening : arrow.toList <+: behind := by
        rw [eq_of_dropPrefix? dropped]
        exact List.prefix_append _ _
      have pair : ['-', '>'] <:+: arrow.toList := ⟨[' '], " n".toList, rfl⟩
      have inside := pair.trans (opening.isInfix.trans inLine.isInfix)
      exact (together _ _ inside).2 ⟨rfl, rfl⟩

theorem markLabel_cons (character : Char) (label : List Char) :
    markLabel (character :: label) =
      (if isMarked character then ['\\', character] else [character]) ++
        markLabel label :=
  rfl

/--
In a label no quote and no angle bracket comes first, where none
comes first behind it.
-/
theorem head_markLabel
    {rest : List Char}
    (label : List Char)
    (start : ∀ character ∈ rest.head?, isMarked character = false) :
    ∀ character ∈ (markLabel label ++ rest).head?,
      isMarked character = false := by
  cases label with
  | nil =>
      exact start
  | cons first label =>
      rw [markLabel_cons]
      split
      · rintro character ⟨⟩
        decide
      case isFalse unmarked =>
          rintro character ⟨⟩
          exact Bool.eq_false_iff.mpr unmarked

theorem apart_of_not_isMarked
    {first second : Char}
    (unmarked : isMarked second = false) :
    Apart first second := by
  constructor
  · rintro ⟨-, rfl⟩
    cases unmarked
  · rintro ⟨-, rfl⟩
    cases unmarked

/-- In a label every quote and every angle bracket stands behind a backslash. -/
theorem isChain_markLabel
    {rest : List Char}
    (label : List Char)
    (start : ∀ character ∈ rest.head?, isMarked character = false)
    (apart : rest.IsChain Apart) :
    (markLabel label ++ rest).IsChain Apart := by
  induction label with
  | nil =>
      exact apart
  | cons first label inductionHypothesis =>
      have behind : (first :: (markLabel label ++ rest)).IsChain Apart := by
        refine List.isChain_cons.mpr ⟨?_, inductionHypothesis⟩
        intro second isNext
        exact apart_of_not_isMarked (head_markLabel label start second isNext)
      rw [markLabel_cons]
      split
      · refine List.isChain_cons_cons.mpr ⟨?_, behind⟩
        exact ⟨by simp, by simp⟩
      · exact behind

/-- The text of the line of a node behind its opening. -/
def nodeClosing (label : Node) : List Char :=
  markLabel (nodeTitle label).toList ++ "\"];".toList

namespace GraphItem

/-- The text of an item without the line feed that ends it. -/
def text : GraphItem → List Char
  | .node label => nodeOpening label.id ++ nodeClosing label
  | .edge parent child => edgeLine parent child

theorem toList_render (item : GraphItem) :
    item.render.toList = item.text ++ ['\n'] := by
  cases item with
  | node label =>
      simp [render, text, nodeOpening, nodeClosing, lineStart, labelStart]
  | edge parent child =>
      simp [render, text, edgeLine, lineStart, arrow]

end GraphItem

@[simp] theorem feed_not_mem_digits (number : Nat) :
    '\n' ∉ Nat.toDigits 10 number := by
  intro member
  have isDigit := Nat.isDigit_of_mem_toDigits (by decide) (by decide) member
  cases isDigit

theorem feed_not_mem_nodeOpening (id : Nat) : '\n' ∉ nodeOpening id := by
  have fixed : '\n' ∉ lineStart.toList ∧ '\n' ∉ labelStart.toList := by
    decide
  simp [nodeOpening, fixed]

theorem feed_not_mem_edgeLine (parent child : Nat) :
    '\n' ∉ edgeLine parent child := by
  have fixed : '\n' ∉ lineStart.toList ∧ '\n' ∉ arrow.toList := by
    decide
  simp [edgeLine, fixed]

theorem markLabel_append (first second : List Char) :
    markLabel (first ++ second) = markLabel first ++ markLabel second :=
  List.flatMap_append

/-- Marking a label adds no line feed. -/
theorem count_feed_markLabel (label : List Char) :
    (markLabel label).count '\n' = label.count '\n' := by
  induction label with
  | nil =>
      rfl
  | cons character label inductionHypothesis =>
      rw [markLabel_cons, List.count_append, inductionHypothesis,
        List.count_cons, Nat.add_comm]
      split <;> simp [List.count_cons]

/--
A title ends in a parenthesis, which keeps the quote behind a label
from its characters.
-/
theorem isChain_nodeClosing (label : Node) :
    (nodeClosing label ++ ['\n']).IsChain Apart := by
  have shape : nodeClosing label ++ ['\n'] =
      markLabel (label.tag ++ " (" ++ toString label.id).toList ++
        ")\"];\n".toList := by
    rw [nodeClosing, nodeTitle, String.toList_append, markLabel_append,
      List.append_assoc, List.append_assoc]
    rfl
  rw [shape]
  apply isChain_markLabel
  · rintro character ⟨⟩
    decide
  · simp [Apart]

namespace GraphItem

/-- How many line feeds the tag in an item holds. -/
def feeds : GraphItem → Nat
  | .node label => label.tag.toList.count '\n'
  | .edge _ _ => 0

theorem count_feed_text (item : GraphItem) :
    item.text.count '\n' = item.feeds := by
  cases item with
  | node label =>
      have opening := List.count_eq_zero.mpr (feed_not_mem_nodeOpening label.id)
      have number := List.count_eq_zero.mpr (feed_not_mem_digits label.id)
      rw [text, feeds, nodeClosing, List.count_append, List.count_append,
        opening, count_feed_markLabel, nodeTitle]
      simp [number]
  | edge parent child =>
      exact List.count_eq_zero.mpr (feed_not_mem_edgeLine parent child)

/-- An item has one line, and one more for each line feed in its tag. -/
theorem length_lines_text (item : GraphItem) :
    (Text.lines (item.text ++ ['\n'])).length = 1 + item.feeds := by
  rw [Text.length_lines_append, count_feed_text, Text.lines]
  simp [Nat.add_comm]

/-- An item is read from its text. -/
theorem ofLine?_text (item : GraphItem) :
    Mark.ofLine? item.text = some item.mark := by
  cases item with
  | node label =>
      exact ofLine?_nodeOpening label.id (nodeClosing label)
  | edge parent child =>
      exact ofLine?_edgeLine parent child

/-- Of the lines of an item the first alone tells of a node or an edge. -/
theorem filterMap_lines_text (item : GraphItem) :
    (Text.lines (item.text ++ ['\n'])).filterMap Mark.ofLine? =
      [item.mark] := by
  cases item with
  | node label =>
      obtain ⟨first, others, shape⟩ :=
        Text.exists_first_line (nodeClosing label) []
      have silent : ∀ line ∈ others, Mark.ofLine? line = none := by
        intro line member
        have inside : line <:+: nodeClosing label ++ ['\n'] := by
          apply Text.infix_of_mem_lines
          rw [shape]
          exact List.mem_cons_of_mem first member
        exact ofLine?_of_isChain
          (isChain_of_inside (isChain_nodeClosing label) inside)
      rw [text, List.append_assoc,
        Text.lines_front (feed_not_mem_nodeOpening label.id) shape,
        List.filterMap_cons_some (ofLine?_nodeOpening label.id first),
        List.filterMap_eq_nil_iff.mpr silent]
      rfl
  | edge parent child =>
      rw [text, Text.lines_append (feed_not_mem_edgeLine parent child),
        Text.lines, List.filterMap_cons_some (ofLine?_edgeLine parent child)]
      rfl

/-- The lines of items are those of one item after the other. -/
theorem lines_textAll
    (items : List GraphItem)
    (rest : List Char) :
    Text.lines ((items.map text).flatMap (· ++ ['\n']) ++ rest) =
      (items.flatMap fun item => Text.lines (item.text ++ ['\n'])) ++
        Text.lines rest := by
  induction items with
  | nil =>
      rfl
  | cons item items inductionHypothesis =>
      rw [List.map_cons, List.flatMap_cons, List.flatMap_cons,
        List.append_assoc, List.append_assoc, List.singleton_append,
        Text.lines_append_lines, inductionHypothesis, List.append_assoc]

end GraphItem

/-- The lines between the first two and the last one of a graph. -/
def bodyLines (tree : Tree Node) : List (List Char) :=
  (graphItems tree).flatMap fun item => Text.lines (item.text ++ ['\n'])

/-- The text of a graph. -/
theorem toList_graph (tree : Tree Node) :
    (graph tree).toList =
      "digraph AST \x7b\n    node [shape=record];\n".toList ++
        (((graphItems tree).map GraphItem.text).flatMap (· ++ ['\n']) ++
          "\x7d\n".toList) := by
  have items : (graphItems tree).flatMap (String.toList ∘ GraphItem.render) =
      ((graphItems tree).map GraphItem.text).flatMap (· ++ ['\n']) := by
    rw [List.flatMap_map]
    exact List.flatMap_congr fun item _ => item.toList_render
  unfold graph
  rw [String.toList_append, String.toList_append, String.toList_join,
    List.flatMap_map, ← items, List.append_assoc]
  rfl

/-- The lines of a graph. -/
theorem lines_graph (tree : Tree Node) :
    Text.lines (graph tree).toList =
      "digraph AST \x7b".toList :: "    node [shape=record];".toList ::
        (bodyLines tree ++ ["\x7d".toList]) := by
  have header : "digraph AST \x7b\n    node [shape=record];\n".toList =
      "digraph AST \x7b".toList ++
        '\n' :: ("    node [shape=record];".toList ++ ['\n']) := by
    decide
  have whole :
      '\n' ∉ "digraph AST \x7b".toList ∧
        '\n' ∉ "    node [shape=record];".toList := by
    decide
  rw [toList_graph, header, List.append_assoc, List.cons_append,
    List.append_assoc, List.singleton_append, Text.lines_append whole.1,
    Text.lines_append whole.2, GraphItem.lines_textAll]
  rfl

/-- What the lines tell of are the items. -/
theorem filterMap_bodyLines (tree : Tree Node) :
    (bodyLines tree).filterMap Mark.ofLine? =
      (graphItems tree).map GraphItem.mark := by
  rw [bodyLines, List.filterMap_flatMap]
  simp only [GraphItem.filterMap_lines_text]
  exact List.map_eq_flatMap.symm

/-- How many line feeds the tags of a tree hold. -/
def tagFeeds (tree : Tree Node) : Nat :=
  (tree.preorder.map fun node => node.tag.toList.count '\n').sum

theorem sum_feeds (tree : Tree Node) :
    ((graphItems tree).map GraphItem.feeds).sum = tagFeeds tree := by
  have edges :
      ∀ parent child,
        ((childEdge parent child).map GraphItem.feeds).sum = 0 := by
    intro parent child
    cases child <;> rfl
  induction tree with
  | absent =>
      rfl
  | node label left right leftHypothesis rightHypothesis =>
      rw [tagFeeds] at leftHypothesis rightHypothesis ⊢
      simp [graphItems, Tree.preorder, edges, leftHypothesis, rightHypothesis,
        GraphItem.feeds]

/--
The body has a line for each item, and one more for each line feed in a tag.
-/
theorem length_bodyLines (tree : Tree Node) :
    (bodyLines tree).length = (graphItems tree).length + tagFeeds tree := by
  rw [bodyLines, List.length_flatMap, ← sum_feeds]
  simp only [GraphItem.length_lines_text]
  rw [List.sum_map_add]
  simp

theorem tagFeeds_eq_zero_iff (tree : Tree Node) :
    tagFeeds tree = 0 ↔ ∀ node ∈ tree.preorder, '\n' ∉ node.tag.toList := by
  rw [tagFeeds, List.sum_eq_zero_iff]
  simp only [List.forall_mem_map, List.count_eq_zero]

/--
The lines of the body are the texts of the items exactly if no tag
breaks one of them.
-/
theorem bodyLines_eq_iff (tree : Tree Node) :
    bodyLines tree = (graphItems tree).map GraphItem.text ↔
      tagFeeds tree = 0 := by
  constructor
  · intro same
    have lengths := length_bodyLines tree
    rw [same, List.length_map] at lengths
    omega
  · intro unbroken
    rw [← sum_feeds, List.sum_eq_zero_iff, List.forall_mem_map] at unbroken
    have whole :
        ∀ text ∈ (graphItems tree).map GraphItem.text, '\n' ∉ text := by
      refine List.forall_mem_map.mpr fun item member => ?_
      rw [← List.count_eq_zero, item.count_feed_text, unbroken item member]
    have lines := GraphItem.lines_textAll (graphItems tree) []
    rw [List.append_nil, Text.lines_flatMap whole, Text.lines,
      List.append_nil] at lines
    exact lines.symm

/-- The edge of a link, and directly behind it the node to which it leads. -/
def linkMarks (link : Link) : List Mark :=
  [.edge link.parent link.child.id, .node link.child.id]

/-- A tree that hangs below a number has the edges and nodes of its links. -/
theorem map_mark_linksBelow
    (parent : Nat)
    (tree : Tree Node) :
    (childEdge parent tree ++ graphItems tree).map GraphItem.mark =
      (tree.linksBelow parent).flatMap linkMarks := by
  induction tree generalizing parent with
  | absent =>
      rfl
  | node label left right leftHypothesis rightHypothesis =>
      rw [Tree.linksBelow, List.flatMap_cons, List.flatMap_append,
        ← leftHypothesis, ← rightHypothesis, ← List.map_append]
      rfl

/-- What a graph tells of. -/
def treeMarks (tree : Tree Node) : List Mark :=
  (graphItems tree).map GraphItem.mark

theorem treeMarks_node
    (label : Node)
    (left right : Tree Node) :
    treeMarks (.node label left right) =
      .node label.id ::
        (Tree.node label left right).links.flatMap linkMarks := by
  rw [Tree.links, List.flatMap_append, ← map_mark_linksBelow,
    ← map_mark_linksBelow, ← List.map_append]
  rfl

/-- The nodes in the order of the lines are those of the tree in pre-order. -/
theorem filterMap_node_treeMarks (tree : Tree Node) :
    (treeMarks tree).filterMap Mark.node? = tree.preorder.map Node.id := by
  cases tree with
  | absent =>
      rfl
  | node label left right =>
      have below : ∀ links : List Link,
          (links.flatMap linkMarks).filterMap Mark.node? =
            links.map (fun link => link.child.id) := by
        intro links
        rw [List.filterMap_flatMap]
        exact List.map_eq_flatMap.symm
      have children :=
        congrArg (List.map Node.id) (Tree.node label left right).map_child_links
      rw [List.map_map] at children
      rw [treeMarks_node,
        List.filterMap_cons_some
          (show Mark.node? (.node label.id) = _ from rfl),
        below]
      exact congrArg (label.id :: ·) children

/-- The edges in the order of the lines are the links of the tree. -/
theorem filterMap_edge_treeMarks (tree : Tree Node) :
    (treeMarks tree).filterMap Mark.edge? = tree.links.map Link.ends := by
  cases tree with
  | absent =>
      rfl
  | node label left right =>
      rw [treeMarks_node, List.filterMap_cons_none rfl, List.filterMap_flatMap]
      exact List.map_eq_flatMap.symm

/-- There is an item for every node and one for every node but the root. -/
theorem length_graphItems (tree : Tree Node) :
    (graphItems tree).length = tree.size + (tree.size - 1) := by
  have marks : (graphItems tree).length = (treeMarks tree).length :=
    (List.length_map GraphItem.mark).symm
  cases tree with
  | absent =>
      rfl
  | node label left right =>
      have links :
          (Tree.node label left right).links.length =
            left.size + right.size := by
        rw [← List.length_map Link.child, Tree.map_child_links,
          List.length_tail, Tree.length_preorder, Tree.size, Nat.add_sub_cancel]
      have pairs :
          ∀ some : List Link,
            (some.flatMap linkMarks).length = 2 * some.length := by
        intro some
        simp [List.length_flatMap, linkMarks, Nat.mul_comm]
      rw [marks, treeMarks_node, List.length_cons, pairs, links, Tree.size]
      omega

/-- The edges are the links, also in their order. -/
theorem edges_sublist
    {ends : List (Nat × Nat)}
    {tree : Tree Node}
    (inside : ends <+ tree.links.map Link.ends) :
    ends.map (fun pair => .edge pair.1 pair.2) <+ treeMarks tree := by
  have all :
      (tree.links.map Link.ends).map (fun pair => Mark.edge pair.1 pair.2) <+
      tree.links.flatMap linkMarks := by
    rw [List.map_map, List.map_eq_flatMap]
    exact List.Sublist.flatMap_right _ fun link _ =>
      .cons_cons _ (List.nil_sublist _)
  have below : tree.links.flatMap linkMarks <+ treeMarks tree := by
    cases tree with
    | absent =>
        exact .slnil
    | node label left right =>
        rw [treeMarks_node]
        exact List.sublist_cons_self _ _
  exact ((inside.map _).trans all).trans below

theorem mem_edge_iff
    {parent child : Nat}
    {tree : Tree Node} :
    .edge parent child ∈ treeMarks tree ↔
      (parent, child) ∈ tree.links.map Link.ends := by
  rw [← filterMap_edge_treeMarks, List.mem_filterMap]
  constructor
  · intro member
    exact ⟨_, member, rfl⟩
  · rintro ⟨mark, member, found⟩
    cases mark with
    | node id =>
        cases found
    | edge upper lower =>
        obtain ⟨rfl, rfl⟩ := Prod.mk.inj (Option.some.inj found)
        exact member

/-- An edge comes behind its parent, and directly before its child. -/
theorem edge_placed
    {tree : Tree Node}
    {link : Link}
    (member : link ∈ tree.links) :
    [.node link.parent, .edge link.parent link.child.id] <+ treeMarks tree ∧
      linkMarks link <:+: treeMarks tree := by
  cases tree with
  | absent =>
      cases member
  | node label left right =>
      rw [treeMarks_node]
      constructor
      · obtain ⟨upper, isParent, ordered⟩ := Tree.parent_before_links 0 member
        have marks : linkMarks upper ++ (linkMarks link ++ []) <+
            .edge 0 label.id ::
              .node label.id ::
              (Tree.node label left right).links.flatMap linkMarks :=
          ordered.flatMap linkMarks
        have pair : [.node link.parent, .edge link.parent link.child.id] <+
            linkMarks upper ++ (linkMarks link ++ []) := by
          rw [← isParent, List.append_nil]
          have front : [.node upper.child.id] <+ linkMarks upper :=
            .cons _ (.cons_cons _ .slnil)
          have back :
              [.edge upper.child.id link.child.id] <+ linkMarks link := by
            rw [linkMarks, ← isParent]
            exact .cons_cons _ (List.nil_sublist _)
          exact front.append back
        exact (pair.trans marks).of_cons_of_ne (by simp)
      · have inside :
            linkMarks link <:+:
              (Tree.node label left right).links.flatMap linkMarks :=
          List.infix_of_mem_flatten (List.mem_map_of_mem member)
        exact inside.trans (List.suffix_cons _ _).isInfix

end Report

namespace Program

open Report

/-- Marks that are the tree of a program. -/
structure Draws
    (program : Program)
    (marks : List Mark) :
    Prop where
  /-- The nodes are those of the tree in pre-order, one for every number. -/
  nodes : marks.filterMap Mark.node? = program.tree.preorder.map Node.id
  numbers : (marks.filterMap Mark.node?).Perm (List.range' 1 program.store.size)
  /--
  There is one edge less, one that leads to every number but that of the root.
  -/
  edges : (marks.filterMap Mark.edge?).length = program.store.size - 1
  targets :
    ((marks.filterMap Mark.edge?).map Prod.snd).Perm
      ((List.range' 1 program.store.size).erase program.root)
  /--
  The edges lead from the nodes to their children, which have smaller numbers.
  -/
  children :
    ∀ parent child,
      .edge parent child ∈ marks ↔
        ∃ record, program.store.get? parent = some record ∧ record.IsAbove child
  smaller : ∀ parent child, .edge parent child ∈ marks → child < parent
  /--
  An edge comes behind its parent and directly before its child, a left
  before a right one.
  -/
  placed :
    ∀ parent child, .edge parent child ∈ marks →
      [.node parent, .edge parent child] <+ marks ∧
        [.edge parent child, .node child] <:+: marks
  leftFirst :
    ∀ parent record left right, program.store.get? parent = some record →
      record.left = some left → record.right = some right →
        [.edge parent left, .edge parent right] <+ marks

/--
A tree that is numbered in post-order in a store of its own is
drawn by its marks.
-/
theorem draws_treeMarks
    {program : Program}
    (numbered : program.tree.NumberedFrom 0)
    (size : program.store.size = program.tree.size)
    (root : program.root = program.tree.size)
    (recorded :
      ∀ id record, program.store.get? id = some record ↔
        record ∈ program.tree.recordList ∧ record.id = id) :
    Draws program (treeMarks program.tree) where
  nodes := filterMap_node_treeMarks program.tree
  numbers := by
    rw [filterMap_node_treeMarks, size]
    exact numbered.perm_preorder
  edges := by
    rw [filterMap_edge_treeMarks, List.length_map, ← List.length_map Link.child,
      Tree.map_child_links, List.length_tail, Tree.length_preorder, size]
  targets := by
    have below := numbered.perm_tail_preorder
    rw [Nat.zero_add, Nat.zero_add, ← Tree.map_child_links,
      List.map_map] at below
    rw [filterMap_edge_treeMarks, List.map_map, size, root]
    exact below
  children := by
    intro parent child
    rw [mem_edge_iff, Tree.mem_ends_links]
    constructor
    · rintro ⟨record, member, isParent, above⟩
      exact ⟨record, (recorded _ _).mpr ⟨member, isParent⟩, above⟩
    · rintro ⟨record, found, above⟩
      obtain ⟨member, isParent⟩ := (recorded _ _).mp found
      exact ⟨record, member, isParent, above⟩
  smaller := by
    intro parent child member
    obtain ⟨link, inside, ends⟩ := List.mem_map.mp (mem_edge_iff.mp member)
    cases ends
    exact numbered.child_lt (Nat.lt_succ_self _)
      ((Tree.links_sublist (0 + program.tree.size + 1)).subset inside)
  placed := by
    intro parent child member
    obtain ⟨link, inside, ends⟩ := List.mem_map.mp (mem_edge_iff.mp member)
    cases ends
    exact edge_placed inside
  leftFirst := by
    intro parent record left right found isLeft isRight
    obtain ⟨member, rfl⟩ := (recorded _ _).mp found
    exact edges_sublist (Tree.left_before_right_links member isLeft isRight)

/--
A program that has been read has all its nodes in its tree, in post-order.
-/
theorem draws_of_read
    {source : String}
    {program : Program}
    (accepted : read source = .ok program) :
    Draws program (treeMarks program.tree) ∧
      program.tree.size = program.store.size := by
  obtain ⟨_, _, _, symbols, tree, -, -, -, -, rfl⟩ :=
    exists_parts_of_read accepted
  have tags := Store.empty.map_tag_addTree tree
  have numbered := Store.empty.numberedFrom_addTree tree
  have sameSize :
      ((Store.empty.addTree tree).1.tree (Store.empty.addTree tree).2).size =
      tree.size := by
    rw [← Tree.size_map Node.tag, tags]
  have stored : (Store.empty.addTree tree).1.size = tree.size :=
    (Store.empty.size_addTree tree).trans (Nat.zero_add _)
  refine ⟨draws_treeMarks numbered (stored.trans sameSize.symm)
    ((Store.root_addTree_empty tree).trans sameSize.symm) ?_,
      sameSize.trans stored.symm⟩
  intro id record
  have member :
      record ∈
        ((Store.empty.addTree tree).1.tree
          (Store.empty.addTree tree).2).recordList ↔
        record ∈ tree.records 0 := by
    rw [numbered.mem_recordList_iff, tags]
    rfl
  exact Store.get?_addTree_empty_iff.trans (and_congr_left' member.symm)

/--
The graph of a program that has been read is its tree. Between the two lines
at the front and the brace at the end one text is written for every node and
one for every edge, each ended by a line feed, and in their order they draw
the tree. They are the lines of the graph exactly if no tag holds a line
feed. Otherwise there is one more line for each line feed in a tag; these
tell of no node and no edge.
-/
theorem graph_drawn
    (source : String)
    (program : Program)
    (accepted : read source = .ok program) :
    ∃ (marks : List Mark) (written body : List (List Char)),
      Draws program marks ∧
        (graph program.tree).toList =
          "digraph AST \x7b\n    node [shape=record];\n".toList ++
            (written.flatMap (· ++ ['\n']) ++ "\x7d\n".toList) ∧
        written.map Mark.ofLine? = marks.map some ∧
        written.length = program.store.size + (program.store.size - 1) ∧
        Text.lines (graph program.tree).toList =
          "digraph AST \x7b".toList :: "    node [shape=record];".toList ::
            (body ++ ["\x7d".toList]) ∧
        (body = written ↔
          ∀ node ∈ program.tree.preorder, '\n' ∉ node.tag.toList) ∧
        body.filterMap Mark.ofLine? = marks ∧
        body.length = written.length + tagFeeds program.tree := by
  obtain ⟨draws, size⟩ := draws_of_read accepted
  have items : ((graphItems program.tree).map GraphItem.text).length =
      program.store.size + (program.store.size - 1) := by
    rw [List.length_map, length_graphItems, size]
  refine ⟨treeMarks program.tree, (graphItems program.tree).map GraphItem.text,
    bodyLines program.tree, draws, toList_graph _, ?_, items, lines_graph _,
    (bodyLines_eq_iff _).trans (tagFeeds_eq_zero_iff _),
    filterMap_bodyLines _, ?_⟩
  · rw [List.map_map, treeMarks, List.map_map]
    exact List.map_congr_left fun item _ => item.ofLine?_text
  · rw [length_bodyLines, List.length_map]

/--
A program with a tag that looks like the line of an edge behind a line feed.
-/
def forged : String :=
  "(program (seq (- \"x\n    n1 -> n6;\") (+ 1 2)))"

/-- The forged program, in which the tag belongs to the first node. -/
def forgedProgram : Program :=
  let (store, root) := Store.empty.addTree
    (.node ";" (.node "-" (.leaf "x\n    n1 -> n6;") .absent)
      (.node "+" (.leaf "1") (.leaf "2")))
  ⟨store, .empty, root⟩

theorem graph_drawn_forged :
    read forged = .ok forgedProgram ∧
      ∃ (marks : List Mark) (written body : List (List Char)),
        Draws forgedProgram marks ∧ written.map Mark.ofLine? = marks.map some ∧
          body.filterMap Mark.ofLine? = marks ∧ written.length = 11 ∧
          body.length = 12 := by
  have accepted : read forged = .ok forgedProgram := by
    rfl
  obtain ⟨marks, written, body, draws, -, told, count, -, -, found, further⟩ :=
    graph_drawn forged forgedProgram accepted
  have feeds : tagFeeds forgedProgram.tree = 1 := by
    decide
  have size : forgedProgram.store.size = 6 := by
    decide
  rw [size] at count
  rw [count, feeds] at further
  exact ⟨accepted, marks, written, body, draws, told, found, count, further⟩

/--
A graph of one node, whose text takes two lines between the header
and the brace.
-/
theorem feed_breaks_node :
    (read "(program \"a\nb\")").toOption.map (fun program =>
        (program.store.size,
          (Text.lines (graph program.tree).toList).map String.ofList)) =
      some (1,
        ["digraph AST \x7b", "    node [shape=record];", "    n1 [label=\"a",
        "b (1)\"];", "\x7d"]) := by
  decide +kernel

end Program

end Coprocessor
