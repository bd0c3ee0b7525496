import Coprocessor.Proofs.Program.Grammar
import Coprocessor.Proofs.SExpr.Exactness
import Coprocessor.Proofs.Tree.Numbering

namespace Coprocessor

open SExpr (Word)

/-!
# Words of programs

The tags of a tree are written as words, bare or in quotes. A bare word that
looks like a number is read as one, and its tag is the canonical writing of
that number; a quoted word is always read as its content. A tree of words,
in whatever layout, is read as the tree of their tags, and nothing but a
tree of words is read.
-/

/-- The tag of the node for which a word stands. -/
def SExpr.Word.tag (word : Word) : String :=
  Program.aliased word.atom.content

namespace Tree

/-- A tree of words is written with each node before its children. -/
inductive Worded : Tree Word → List Char → Prop where
  | atom (word : Word) : Worded (.leaf word) word.text
  | alone
      {word : Word}
      {text : List Char}
      (enclosed : SExpr.Enclosed [word.text] text) :
      Worded (.leaf word) text
  | unary
      {word : Word}
      {child : Tree Word}
      {childText text : List Char}
      (worded : Worded child childText)
      (enclosed : SExpr.Enclosed [word.text, childText] text) :
      Worded (.node word child .absent) text
  | binary
      {word : Word}
      {left right : Tree Word}
      {leftText rightText text : List Char}
      (leftWorded : Worded left leftText)
      (rightWorded : Worded right rightText)
      (enclosed : SExpr.Enclosed [word.text, leftText, rightText] text) :
      Worded (.node word left right) text

/-- A tree that is absent is not written at all. -/
inductive WordedIfAny : Tree Word → List (List Char) → Prop where
  | absent : WordedIfAny .absent []
  | present
      {tree : Tree Word}
      {text : List Char}
      (worded : tree.Worded text) :
      WordedIfAny tree [text]

/--
A tree that is written like declarations: as a list that starts with the word
`decls`.
-/
def LooksDeclared
    (tree : Tree Word)
    (text : List Char) :
    Prop :=
  text.head? = some '(' ∧
    ∃ word, tree.label? = some word ∧ word.atom = .text "decls"

theorem not_looksDeclared_word
    (tree : Tree Word)
    (word : Word) :
    ¬tree.LooksDeclared word.text := by
  rintro ⟨isList, -⟩
  cases word with
  | bare characters plain =>
      exact SExpr.Word.not_delimited_of_plain plain (.inl isList)
  | quoted body content escaped =>
      cases isList

/--
A node in parentheses looks like declarations exactly if its list is
one of declarations.
-/
theorem looksDeclared_iff_of_enclosed
    {texts : List (List Char)}
    {text : List Char}
    (enclosed : SExpr.Enclosed texts text)
    (word : Word)
    (left right : Tree Word)
    (items : List SExpr) :
    LooksDeclared (.node word left right) text ↔
      ∃ others,
        SExpr.list (.atom word.atom :: items) =
          Program.declarationList others := by
  cases enclosed
  simp only [Program.declarationList, SExpr.list.injEq, List.cons.injEq,
    SExpr.atom.injEq]
  constructor
  · rintro ⟨-, _, ⟨⟩, isDeclarations⟩
    exact ⟨items, isDeclarations, rfl⟩
  · rintro ⟨_, isDeclarations, -⟩
    exact ⟨rfl, word, rfl, isDeclarations⟩

/-- A tree of words spells an expression of the tree of their tags. -/
theorem Worded.exists_spells
    {tree : Tree Word}
    {text : List Char}
    (worded : tree.Worded text) :
    ∃ expression,
      expression.Spells text ∧
        Program.readTree expression = .ok (tree.map Word.tag) ∧
        (tree.LooksDeclared text ↔
          ∃ others, expression = Program.declarationList others) := by
  induction worded with
  | atom word =>
      refine ⟨_, .atom word, ?_,
        iff_of_false (not_looksDeclared_word _ word) ?_⟩
      · rw [Program.readTree, Program.tagOfWord_eq_aliased]
        rfl
      · rintro ⟨_, ⟨⟩⟩
  | @alone word _ enclosed =>
      refine ⟨_, .list (.cons (.atom word) .nil) enclosed, ?_,
        looksDeclared_iff_of_enclosed enclosed word _ _ _⟩
      simp only [Program.readTree, Program.tagOfWord_eq_aliased]
      rfl
  | @unary word _ _ _ _ enclosed inductionHypothesis =>
      obtain ⟨child, spells, grows, -⟩ := inductionHypothesis
      refine ⟨_, .list (.cons (.atom word) (.cons spells .nil)) enclosed, ?_,
        looksDeclared_iff_of_enclosed enclosed word _ _ _⟩
      simp only [Program.readTree, Program.tagOfWord_eq_aliased, grows]
      rfl
  | @binary word _ _ _ _ _ _ _ enclosed leftHypothesis rightHypothesis =>
      obtain ⟨left, leftSpells, leftGrows, -⟩ := leftHypothesis
      obtain ⟨right, rightSpells, rightGrows, -⟩ := rightHypothesis
      refine ⟨_,
        .list (.cons (.atom word) (.cons leftSpells (.cons rightSpells .nil)))
        enclosed, ?_, looksDeclared_iff_of_enclosed enclosed word _ _ _⟩
      simp only [Program.readTree, Program.tagOfWord_eq_aliased, leftGrows,
        rightGrows]
      rfl

end Tree

namespace Program

/-- Only atoms have a content. -/
theorem exists_atom_of_content
    {expression : SExpr}
    {content : String}
    (found : atomContent expression = .ok content) :
    ∃ value, expression = .atom value := by
  cases expression with
  | atom value =>
      exact ⟨value, rfl⟩
  | list items =>
      cases found

/-- What spells an expression of a tree is a tree of words. -/
theorem exists_treeWorded
    {expression : SExpr}
    {text : List Char}
    {tags : Tree String}
    (spells : expression.Spells text)
    (grows : readTree expression = .ok tags) :
    ∃ tree : Tree Word,
      tree.Worded text ∧
        (tree.LooksDeclared text ↔
          ∃ others, expression = declarationList others) := by
  fun_induction readTree expression generalizing text tags with
  | case1 value =>
      cases spells with
      | atom word =>
          refine ⟨_, .atom word,
            iff_of_false (Tree.not_looksDeclared_word _ word) ?_⟩
          rintro ⟨_, ⟨⟩⟩
  | case2 =>
      cases grows
  | case3 head =>
      obtain ⟨tag, found, -⟩ := exists_of_bind grows
      obtain ⟨value, rfl⟩ := exists_atom_of_content found
      cases spells with
      | list spelled enclosed =>
          obtain _ | ⟨⟨word⟩, _ | _⟩ := spelled
          exact ⟨_, .alone enclosed,
            Tree.looksDeclared_iff_of_enclosed enclosed word _ _ _⟩
  | case4 head child childWorded =>
      obtain ⟨tag, found, below⟩ := exists_of_bind grows
      obtain ⟨value, rfl⟩ := exists_atom_of_content found
      obtain ⟨childTags, childGrows, -⟩ := exists_of_bind below
      cases spells with
      | list spelled enclosed =>
          obtain _ | ⟨⟨word⟩, _ | ⟨childSpells, _ | _⟩⟩ := spelled
          obtain ⟨childTree, worded, -⟩ := childWorded childSpells childGrows
          exact ⟨_, .unary worded enclosed,
            Tree.looksDeclared_iff_of_enclosed enclosed word _ _ _⟩
  | case5 head first second firstWorded secondWorded =>
      obtain ⟨tag, found, below⟩ := exists_of_bind grows
      obtain ⟨value, rfl⟩ := exists_atom_of_content found
      obtain ⟨firstTags, firstGrows, behind⟩ := exists_of_bind below
      obtain ⟨secondTags, secondGrows, -⟩ := exists_of_bind behind
      cases spells with
      | list spelled enclosed =>
          obtain _ | ⟨⟨word⟩, _ | ⟨firstSpells, _ | ⟨secondSpells, _ | _⟩⟩⟩ :=
            spelled
          obtain ⟨left, leftWorded, -⟩ := firstWorded firstSpells firstGrows
          obtain ⟨right, rightWorded, -⟩ :=
            secondWorded secondSpells secondGrows
          exact ⟨_, .binary leftWorded rightWorded enclosed,
            Tree.looksDeclared_iff_of_enclosed enclosed word _ _ _⟩
  | case6 head children =>
      obtain ⟨tag, found, fails⟩ := exists_of_bind grows
      cases fails

/-- A program is read as the parts of its items. -/
theorem ofSExpr_of_parts
    {items declarations trees : List SExpr}
    {symbols : Symbol.Table}
    {tree : Tree String}
    (divided : splitDeclarations items = (declarations, trees))
    (declares : readDeclarations .empty declarations = .ok symbols)
    (grows : readTrees trees = .ok tree) :
    ofSExpr (.list (.atom (.text "program") :: items)) =
      .ok ⟨(Store.empty.addTree tree).1, symbols,
        (Store.empty.addTree tree).2⟩ := by
  rw [ofSExpr, divided]
  dsimp only
  rw [declares, grows]
  rfl

theorem exists_read_of_parts
    {source : String}
    {items declarations trees : List SExpr}
    {symbols : Symbol.Table}
    {tree : Tree String}
    (readable :
      SExpr.readChars source.toList =
        .ok (.list (.atom (.text "program") :: items)))
    (divided : splitDeclarations items = (declarations, trees))
    (declares : readDeclarations .empty declarations = .ok symbols)
    (grows : readTrees trees = .ok tree) :
    ∃ program, read source = .ok program ∧
      program.tree.map Node.tag = tree := by
  refine ⟨⟨(Store.empty.addTree tree).1, symbols, (Store.empty.addTree tree).2⟩,
    ?_, Store.empty.map_tag_addTree tree⟩
  rw [read, readable]
  exact ofSExpr_of_parts divided declares grows

/--
What stands for a tree that may be absent spells what the tree is read from.
-/
theorem exists_spells_trees
    {tree : Tree Word}
    {texts : List (List Char)}
    (worded : tree.WordedIfAny texts) :
    ∃ trees,
      List.Forall₂ SExpr.Spells trees texts ∧
        readTrees trees = .ok (tree.map Word.tag) ∧
        ((∀ text ∈ texts, ¬tree.LooksDeclared text) →
          ∀ others, trees.head? ≠ some (declarationList others)) := by
  cases worded with
  | absent =>
      exact ⟨[], .nil, rfl, fun _ _ => by simp⟩
  | present worded =>
      obtain ⟨expression, spells, grows, looksDeclared⟩ := worded.exists_spells
      refine ⟨[expression], .cons spells .nil, grows,
        fun isTree others first => ?_⟩
      exact isTree _ List.mem_cons_self
        (looksDeclared.mpr ⟨others, Option.some.inj first⟩)

theorem exists_treesWorded
    {trees : List SExpr}
    {texts : List (List Char)}
    {tags : Tree String}
    (spelled : List.Forall₂ SExpr.Spells trees texts)
    (grows : readTrees trees = .ok tags) :
    ∃ tree : Tree Word,
      tree.WordedIfAny texts ∧
        ((∀ others, trees.head? ≠ some (declarationList others)) →
          ∀ text ∈ texts, ¬tree.LooksDeclared text) := by
  unfold readTrees at grows
  split at grows
  case h_1 =>
      cases spelled
      exact ⟨.absent, .absent, fun _ => List.forall_mem_nil _⟩
  case h_2 =>
      obtain _ | ⟨spells, _ | _⟩ := spelled
      obtain ⟨tree, worded, looksDeclared⟩ := exists_treeWorded spells grows
      refine ⟨tree, .present worded,
        fun noDeclarations text member isDeclared => ?_⟩
      obtain rfl := List.mem_singleton.mp member
      obtain ⟨others, same⟩ := looksDeclared.mp isDeclared
      exact noDeclarations others (congrArg some same)
  case h_3 =>
      cases grows

/--
A program is written as a tree of words, if it has one, behind declarations that
are accepted, or as a tree alone that is not taken for declarations.
-/
inductive Worded (tree : Tree Word) : List Char → Prop where
  | declared
      {keyword : Word}
      {declarations : List SExpr}
      {symbols : Symbol.Table}
      {declarationsText text front back : List Char}
      {treeTexts : List (List Char)}
      (isProgram : keyword.atom = .text "program")
      (spells : (declarationList declarations).Spells declarationsText)
      (accepted : readDeclarations .empty declarations = .ok symbols)
      (worded : tree.WordedIfAny treeTexts)
      (enclosed :
        SExpr.Enclosed (keyword.text :: declarationsText :: treeTexts) text)
      (before : SExpr.Layout front)
      (behind : SExpr.LastLayout back) :
      Worded tree (front ++ (text ++ back))
  | undeclared
      {keyword : Word}
      {text front back : List Char}
      {treeTexts : List (List Char)}
      (isProgram : keyword.atom = .text "program")
      (worded : tree.WordedIfAny treeTexts)
      (isTree : ∀ treeText ∈ treeTexts, ¬tree.LooksDeclared treeText)
      (enclosed : SExpr.Enclosed (keyword.text :: treeTexts) text)
      (before : SExpr.Layout front)
      (behind : SExpr.LastLayout back) :
      Worded tree (front ++ (text ++ back))

/-- A list with the keyword in front is read as a program of its items. -/
theorem readChars_of_keyword
    {keyword : Word}
    {items : List SExpr}
    {texts : List (List Char)}
    {text front back : List Char}
    (isProgram : keyword.atom = .text "program")
    (spelled : List.Forall₂ SExpr.Spells items texts)
    (enclosed : SExpr.Enclosed (keyword.text :: texts) text)
    (before : SExpr.Layout front)
    (behind : SExpr.LastLayout back) :
    SExpr.readChars (front ++ (text ++ back)) =
      .ok (.list (.atom (.text "program") :: items)) := by
  have spells : SExpr.Spells (.list (.atom keyword.atom :: items)) text :=
    .list (.cons (.atom keyword) spelled) enclosed
  rw [← isProgram]
  exact (SExpr.readChars_eq_ok_iff _ _).mpr
    ⟨front, text, back, before, spells, behind, rfl⟩

/-- A program of words is accepted, and its nodes have the tags of the words. -/
theorem Worded.exists_read
    {tree : Tree Word}
    {source : String}
    (worded : Worded tree source.toList) :
    ∃ program,
      read source = .ok program ∧
        program.tree.map Node.tag = tree.map Word.tag := by
  generalize characters : source.toList = text at worded
  cases worded with
  | declared isProgram spells accepted worded enclosed before behind =>
      obtain ⟨trees, spelled, grows, -⟩ := exists_spells_trees worded
      have readable :=
        readChars_of_keyword isProgram (.cons spells spelled) enclosed before
          behind
      rw [← characters] at readable
      exact exists_read_of_parts readable rfl accepted grows
  | undeclared isProgram worded isTree enclosed before behind =>
      obtain ⟨trees, spelled, grows, noDeclarations⟩ :=
        exists_spells_trees worded
      have readable :=
        readChars_of_keyword isProgram spelled enclosed before behind
      rw [← characters] at readable
      exact exists_read_of_parts readable
        (splitDeclarations_of_none (noDeclarations isTree)) rfl grows

/-- Exactly the texts that are programs of words are accepted. -/
theorem exists_read_iff_exists_worded (source : String) :
    (∃ program, read source = .ok program) ↔
      ∃ tree, Worded tree source.toList := by
  constructor
  · rintro ⟨program, accepted⟩
    obtain ⟨items, declarations, trees, symbols, tags, readable, divided,
      declares, grows, -⟩ := exists_parts_of_read accepted
    obtain ⟨front, body, back, before, spells, behind, shape⟩ :=
      (SExpr.readChars_eq_ok_iff _ _).mp readable
    rw [shape]
    cases spells with
    | @list _ texts _ spelled enclosed =>
        obtain _ | ⟨keywordSpells, spelled⟩ := spelled
        generalize isProgram :
          Atom.text "program" = keywordAtom at keywordSpells
        obtain ⟨keyword⟩ := keywordSpells
        by_cases hasDeclarations :
            ∃ others, items.head? = some (declarationList others)
        · obtain ⟨others, first⟩ := hasDeclarations
          obtain ⟨rest, rfl⟩ := List.head?_eq_some_iff.mp first
          obtain ⟨rfl, rfl⟩ := Prod.mk.inj divided
          obtain _ | ⟨declarationSpells, spelled⟩ := spelled
          obtain ⟨tree, worded, -⟩ := exists_treesWorded spelled grows
          exact ⟨tree, .declared isProgram.symm declarationSpells declares
            worded enclosed before behind⟩
        · have noDeclarations := not_exists.mp hasDeclarations
          rw [splitDeclarations_of_none noDeclarations] at divided
          obtain ⟨rfl, rfl⟩ := Prod.mk.inj divided
          obtain ⟨tree, worded, isTree⟩ := exists_treesWorded spelled grows
          exact ⟨tree, .undeclared isProgram.symm worded
            (isTree noDeclarations) enclosed before behind⟩
  · rintro ⟨tree, worded⟩
    obtain ⟨program, accepted, -⟩ := worded.exists_read
    exact ⟨program, accepted⟩

end Program

end Coprocessor
