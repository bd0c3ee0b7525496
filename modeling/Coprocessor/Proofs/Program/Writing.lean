import Coprocessor.Proofs.Program.Words

namespace Coprocessor

open SExpr (Word)

/-!
# Writing programs

A program is written as a list of declarations and at most one tree. Names,
values and tags are quoted, so they may be any texts; the words for types are
bare or quoted. A node without children is a quoted tag, or a list of nothing
else. Between items stands any layout that keeps them apart. Whatever way a
program is written, reading gives it back: the nodes of the tree numbered in
post-order, with the tags for which their words stand, and the declarations
inserted from left to right.
-/

/--
A declaration: a name, a word that names a type in lower case, and
perhaps a value.
-/
structure Program.Declaration where
  name : String
  typeWord : String
  type : SymbolType
  named : SymbolType.names.lookup (SymbolType.lowerWord typeWord) = some type
  value : Option String

namespace Program.Declaration

/-- The symbol that a declaration declares; the length is that of the value. -/
def symbol (declaration : Declaration) : Symbol where
  name := declaration.name
  type := some declaration.type
  value := declaration.value
  length := declaration.value.map String.length

/-- The texts of the word for a type: bare, or quoted. -/
inductive TypeText (word : String) : List Char → Prop where
  | bare : TypeText word word.toList
  | quoted : TypeText word (Atom.quote word.toList)

/--
A declaration is written as a list of its name, the word for its type
and its value if any.
-/
inductive Written (declaration : Declaration) : List Char → Prop where
  | mk
      {typeText text : List Char}
      (type : TypeText declaration.typeWord typeText)
      (enclosed :
        SExpr.Enclosed
          (Atom.quote declaration.name.toList :: typeText ::
            (declaration.value.map fun value => Atom.quote value.toList).toList)
          text) :
      Written declaration text

end Program.Declaration

namespace Tree

/-- A tree in which every node with a right child has a left one. -/
def LeftFirst {Label : Type} : Tree Label → Prop
  | .absent => True
  | .node _ left right =>
      (left = .absent → right = .absent) ∧ left.LeftFirst ∧ right.LeftFirst

/-- A tree is written with its tags in quotes, a node before its children. -/
inductive Written : Tree String → List Char → Prop where
  | atom (tag : String) : Written (.leaf tag) (Atom.quote tag.toList)
  | alone
      {tag : String}
      {text : List Char}
      (enclosed : SExpr.Enclosed [Atom.quote tag.toList] text) :
      Written (.leaf tag) text
  | unary
      {tag : String}
      {child : Tree String}
      {childText text : List Char}
      (written : Written child childText)
      (enclosed : SExpr.Enclosed [Atom.quote tag.toList, childText] text) :
      Written (.node tag child .absent) text
  | binary
      {tag : String}
      {left right : Tree String}
      {leftText rightText text : List Char}
      (leftWritten : Written left leftText)
      (rightWritten : Written right rightText)
      (enclosed :
        SExpr.Enclosed [Atom.quote tag.toList, leftText, rightText] text) :
      Written (.node tag left right) text

/-- A tree that is absent is not written at all. -/
inductive WrittenIfAny : Tree String → List (List Char) → Prop where
  | absent : WrittenIfAny .absent []
  | present
      {tree : Tree String}
      {text : List Char}
      (written : Written tree text) :
      WrittenIfAny tree [text]

end Tree

namespace Program

/--
A program is written as its declarations and its tree, with layout around them.
-/
inductive Written
    (declarations : List Declaration)
    (tree : Tree String) :
    List Char → Prop where
  | mk
      {declarationTexts treeTexts : List (List Char)}
      {declarationsText text front back : List Char}
      (declare : List.Forall₂ Declaration.Written declarations declarationTexts)
      (declared :
        SExpr.Enclosed ("decls".toList :: declarationTexts) declarationsText)
      (grow : tree.WrittenIfAny treeTexts)
      (enclosed :
        SExpr.Enclosed ("program".toList :: declarationsText :: treeTexts) text)
      (before : SExpr.Layout front)
      (behind : SExpr.LastLayout back) :
      Written declarations tree (front ++ (text ++ back))

end Program

/-- Every declaration can be written. -/
theorem Program.Declaration.exists_written (declaration : Declaration) :
    ∃ text, declaration.Written text := by
  obtain ⟨text, enclosed⟩ := SExpr.exists_enclosed _
  exact ⟨text, .mk .bare enclosed⟩

/-- Every tree in which left children come first can be written. -/
theorem Tree.exists_written
    {tree : Tree String}
    (leftFirst : tree.LeftFirst) :
    ∃ texts, tree.WrittenIfAny texts := by
  induction tree with
  | absent =>
      exact ⟨[], .absent⟩
  | node tag left right leftHypothesis rightHypothesis =>
      obtain ⟨first, leftShape, rightShape⟩ := leftFirst
      obtain ⟨_, leftWritten⟩ := leftHypothesis leftShape
      obtain ⟨_, rightWritten⟩ := rightHypothesis rightShape
      cases leftWritten with
      | absent =>
          obtain rfl := first rfl
          exact ⟨_, .present (.atom tag)⟩
      | present leftWritten =>
          cases rightWritten with
          | absent =>
              obtain ⟨text, enclosed⟩ := SExpr.exists_enclosed _
              exact ⟨_, .present (.unary leftWritten enclosed)⟩
          | present rightWritten =>
              obtain ⟨text, enclosed⟩ := SExpr.exists_enclosed _
              exact ⟨_, .present (.binary leftWritten rightWritten enclosed)⟩

/-- Every program can be written whose tree can. -/
theorem Program.exists_written
    (declarations : List Declaration)
    {tree : Tree String}
    (leftFirst : tree.LeftFirst) :
    ∃ source : String, Written declarations tree source.toList := by
  have declare :
      ∃ texts, List.Forall₂ Declaration.Written declarations texts := by
    induction declarations with
    | nil =>
        exact ⟨[], .nil⟩
    | cons declaration rest inductionHypothesis =>
        obtain ⟨text, written⟩ := declaration.exists_written
        obtain ⟨texts, writtenRest⟩ := inductionHypothesis
        exact ⟨text :: texts, .cons written writtenRest⟩
  obtain ⟨declarationTexts, declare⟩ := declare
  obtain ⟨declarationsText, declared⟩ :=
    SExpr.exists_enclosed ("decls".toList :: declarationTexts)
  obtain ⟨treeTexts, grow⟩ := Tree.exists_written leftFirst
  obtain ⟨text, enclosed⟩ :=
    SExpr.exists_enclosed ("program".toList :: declarationsText :: treeTexts)
  refine ⟨String.ofList ([] ++ (text ++ [])), ?_⟩
  rw [String.toList_ofList]
  exact .mk declare declared grow enclosed .none (.closed .none)

/-- The words for types are made of letters and name no number. -/
theorem SymbolType.letters_of_mem_words
    {word : String}
    (known : word ∈ words) :
    word.toList ≠ [] ∧ word.toList.all Text.isLetter = true ∧
      word ∉ Decimal.namedDoubles := by
  have all : words.all (fun word =>
      !word.toList.isEmpty && word.toList.all Text.isLetter &&
        !Decimal.namedDoubles.contains word) = true := by
    decide
  have this := List.all_eq_true.mp all word known
  simp only [Bool.and_eq_true, Bool.not_eq_true', List.isEmpty_eq_false_iff,
    List.contains_eq_mem, decide_eq_false_iff_not] at this
  exact ⟨this.1.1, this.1.2, this.2⟩

/-- A word that names a type in lower case is read as a word. -/
theorem SymbolType.reads_word
    {word : String}
    (known : lowerWord word ∈ words) :
    SExpr.Reads word.toList (.atom (.text word)) := by
  obtain ⟨nonempty, letters, unnamed⟩ := letters_of_mem_words known
  rw [lowerWord, String.toList_ofList] at nonempty letters
  apply SExpr.reads_letters
  · exact fun empty => nonempty (by rw [empty]; rfl)
  · rw [List.all_map, List.all_eq_true] at letters
    exact List.all_eq_true.mpr fun character member =>
      Text.isLetter_of_toLower (letters character member)
  · exact unnamed

namespace Program.Declaration

variable {declaration : Declaration} {text : List Char}

theorem reads_typeText (type : TypeText declaration.typeWord text) :
    SExpr.Reads text (.atom (.text declaration.typeWord)) := by
  cases type with
  | bare =>
      apply SymbolType.reads_word
      rw [← SymbolType.isSome_ofLowerWord?, SymbolType.ofLowerWord?_eq_lookup,
        declaration.named]
      rfl
  | quoted =>
      exact SExpr.reads_quote declaration.typeWord

theorem readTyped_eq :
    Program.readTyped (.atom (.text declaration.name))
      (.atom (.text declaration.typeWord)) =
      .ok ((Symbol.ofName declaration.name).withType declaration.type) := by
  have found :
      SymbolType.ofWord declaration.typeWord = .ok declaration.type := by
    rw [SymbolType.ofWord, SymbolType.ofLowerWord?_eq_lookup, declaration.named]
  simp [Program.readTyped, Program.atomContent, Atom.content, found, bind,
    Except.bind]

/-- A written declaration reads as an expression that declares its symbol. -/
theorem Written.reads (written : declaration.Written text) :
    ∃ expression,
      SExpr.Reads text expression ∧
        Program.readDeclaration expression = .ok declaration.symbol := by
  obtain ⟨type, enclosed⟩ := written
  have name := SExpr.reads_quote declaration.name
  have word := reads_typeText type
  cases found : declaration.value with
  | none =>
      rw [found] at enclosed
      refine ⟨_, SExpr.reads_enclosed enclosed (.cons name (.cons word .nil)),
        ?_⟩
      rw [Program.readDeclaration, readTyped_eq, symbol, found]
      rfl
  | some value =>
      rw [found] at enclosed
      refine ⟨_, SExpr.reads_enclosed enclosed
        (.cons name (.cons word (.cons (SExpr.reads_quote value) .nil))), ?_⟩
      rw [Program.readDeclaration, readTyped_eq, symbol, found]
      rfl

/--
Written declarations read as expressions that insert their symbols
from left to right.
-/
theorem reads_all
    {declarations : List Declaration}
    {texts : List (List Char)}
    (written : List.Forall₂ Written declarations texts) :
    ∃ expressions,
      List.Forall₂ SExpr.Reads texts expressions ∧
        ∀ table,
          Program.readDeclarations table expressions =
            .ok ((declarations.map symbol).foldl .insert table) := by
  induction written with
  | nil =>
      exact ⟨[], .nil, fun table => rfl⟩
  | cons first _ inductionHypothesis =>
      obtain ⟨expression, reads, declares⟩ := first.reads
      obtain ⟨expressions, readsRest, declaresRest⟩ := inductionHypothesis
      refine ⟨expression :: expressions, .cons reads readsRest, fun table => ?_⟩
      rw [Program.readDeclarations, declares]
      exact declaresRest _

end Program.Declaration

namespace Tree

theorem map_tag_map_quote (tree : Tree String) :
    (tree.map Word.quote).map Word.tag = tree.map Program.aliased := by
  induction tree with
  | absent =>
      rfl
  | node tag left right leftSame rightSame =>
      rw [map, map, leftSame, rightSame, Word.tag, Word.atom_quote]
      rfl

/-- A written tree is a tree of quoted words. -/
theorem Written.worded
    {tree : Tree String}
    {text : List Char}
    (written : tree.Written text) :
    (tree.map Word.quote).Worded text := by
  induction written with
  | atom tag =>
      exact .atom (.quote tag)
  | alone enclosed =>
      exact .alone enclosed
  | unary _ enclosed inductionHypothesis =>
      exact .unary inductionHypothesis enclosed
  | binary _ _ enclosed leftHypothesis rightHypothesis =>
      exact .binary leftHypothesis rightHypothesis enclosed

/--
A written tree reads as an expression of the same tree, with the tags that
its words stand for.
-/
theorem Written.reads
    {tree : Tree String}
    {text : List Char}
    (written : tree.Written text) :
    ∃ expression,
      SExpr.Reads text expression ∧
        Program.readTree expression = .ok (tree.map Program.aliased) := by
  obtain ⟨expression, spells, grows, -⟩ := written.worded.exists_spells
  rw [map_tag_map_quote] at grows
  exact ⟨expression, spells.reads, grows⟩

theorem WrittenIfAny.reads
    {tree : Tree String}
    {texts : List (List Char)}
    (written : tree.WrittenIfAny texts) :
    ∃ expressions,
      List.Forall₂ SExpr.Reads texts expressions ∧
        Program.readTrees expressions = .ok (tree.map Program.aliased) := by
  cases written with
  | absent =>
      exact ⟨[], .nil, rfl⟩
  | present written =>
      obtain ⟨expression, reads, grows⟩ := written.reads
      exact ⟨[expression], .cons reads .nil, grows⟩

end Tree

namespace Program

/--
What reading gives: the tree in a store of its own, and the symbols
of the declarations.
-/
def ofParts
    (declarations : List Declaration)
    (tree : Tree String) :
    Program :=
  let (store, root) := Store.empty.addTree (tree.map aliased)
  ⟨store, (declarations.map Declaration.symbol).foldl .insert .empty, root⟩

/-- Whatever way a program is written, it is read as its parts. -/
theorem Written.read_eq
    {declarations : List Declaration}
    {tree : Tree String}
    {source : String}
    (written : Written declarations tree source.toList) :
    read source = .ok (ofParts declarations tree) := by
  generalize characters : source.toList = text at written
  obtain ⟨declare, declared, grow, enclosed, before, behind⟩ := written
  obtain ⟨declarationExpressions, readDeclare, declares⟩ :=
    Declaration.reads_all declare
  obtain ⟨treeExpressions, readGrow, grows⟩ := grow.reads
  have declsWord : SExpr.Reads "decls".toList (.atom (.text "decls")) :=
    SExpr.reads_letters (by decide) (by decide) (by decide)
  have programWord : SExpr.Reads "program".toList (.atom (.text "program")) :=
    SExpr.reads_letters (by decide) (by decide) (by decide)
  have list := SExpr.reads_enclosed declared (.cons declsWord readDeclare)
  have readable := SExpr.readChars_enclosed before enclosed behind
    (.cons programWord (.cons list readGrow))
  rw [read, characters, readable]
  exact ofSExpr_of_parts rfl (declares .empty) grows

/-- A program that holds exactly the given declarations and the given tree. -/
structure Holds
    (declarations : List Declaration)
    (tree : Tree String)
    (program : Program) :
    Prop where
  /-- There are as many nodes as the tree has, and the last one is the root. -/
  size : program.store.size = tree.size
  root : program.root = tree.size
  /--
  The numbers from one on name the nodes in post-order, and no other
  number names a node.
  -/
  found : ∀ index,
    program.store.get? (index + 1) = ((tree.map aliased).records 0)[index]?
  zero : program.store.get? 0 = none
  numbered : ((tree.map aliased).records 0).map Record.id =
    List.range' 1 tree.size
  /--
  The tree below the root is the given one, with the tags that its
  words stand for.
  -/
  shape : program.tree.map Node.tag = tree.map aliased
  /--
  A later declaration takes the place of an earlier one with the
  same stored name.
  -/
  symbols : program.symbols =
    (declarations.map Declaration.symbol).foldl .insert .empty

theorem holds_ofParts
    (declarations : List Declaration)
    (tree : Tree String) :
    Holds declarations tree (ofParts declarations tree) where
  size := by
    rw [← Tree.size_map aliased tree, ← Nat.zero_add (tree.map aliased).size]
    exact Store.empty.size_addTree _
  root := by
    rw [← Tree.size_map aliased tree]
    exact Store.root_addTree_empty _
  found := Store.get?_succ_addTree_empty _
  zero := rfl
  numbered := by
    rw [Tree.map_id_records, Tree.size_map]
  shape := Store.empty.map_tag_addTree _
  symbols := rfl

/--
Reading undoes writing: any declarations with any tree in which left
children come first can be written, and whatever way they are, reading
succeeds and gives them back.
-/
theorem read_written
    (declarations : List Declaration)
    (tree : Tree String)
    (leftFirst : tree.LeftFirst) :
    (∃ source : String, Written declarations tree source.toList) ∧
      ∀ source : String, Written declarations tree source.toList →
        ∃ program, read source = .ok program ∧
          Holds declarations tree program := by
  refine ⟨exists_written declarations leftFirst, fun source written => ?_⟩
  exact ⟨ofParts declarations tree, written.read_eq,
    holds_ofParts declarations tree⟩

/--
A program whose two declarations have one stored name, laid out with comments.
-/
def mixed : String :=
  ";\n(program ; (\n(decls (\"a b\" Float \"1\\\\\") (\"a_b\"\t\"INT\" )) " ++
    "(\"seq\" \"body\" (\"\\\"\" (\"x\"))))"

/-- The declarations of the mixed program. -/
def mixedDeclarations : List Declaration :=
  [⟨"a b", "Float", .float, rfl, some "1\\"⟩,
    ⟨"a_b", "INT", .integer, rfl, none⟩]

/-- The tree of the mixed program. -/
def mixedTree : Tree String :=
  .node "seq" (.leaf "body") (.node "\"" (.leaf "x") .absent)

theorem read_written_mixed :
    mixedTree.LeftFirst ∧ Written mixedDeclarations mixedTree mixed.toList ∧
      ∃ program, read mixed = .ok program ∧
      Holds mixedDeclarations mixedTree program := by
  have leftFirst : mixedTree.LeftFirst := by
    simp [mixedTree, Tree.LeftFirst, Tree.leaf]
  have space : SExpr.Separator [' '] := ⟨.blank rfl .none, by decide⟩
  have tab : SExpr.Separator ['\t'] := ⟨.blank rfl .none, by decide⟩
  have remark : SExpr.Separator " ; (\n".toList :=
    ⟨.blank rfl (.comment (show '\n' ∉ [' ', '('] by decide) .none), by decide⟩
  have first :
      Declaration.Written ⟨"a b", "Float", .float, rfl, some "1\\"⟩ _ :=
    ⟨.bare, .mk .none (space.row (space.row (.last _)))⟩
  have second : Declaration.Written ⟨"a_b", "INT", .integer, rfl, none⟩ _ :=
    ⟨.quoted, .mk .none (tab.row (space.row .close))⟩
  have inner : Tree.Written (.node "\"" (.leaf "x") .absent) _ :=
    .unary (.alone (.mk .none (.last _))) (.mk .none (space.row (.last _)))
  have tree : Tree.Written mixedTree _ :=
    .binary (.atom "body") inner (.mk .none (space.row (space.row (.last _))))
  have written : Written mixedDeclarations mixedTree mixed.toList :=
    .mk (.cons first (.cons second .nil))
      (.mk .none (space.row (space.row (.last _)))) (.present tree)
      (.mk .none (remark.row (space.row (.last _))))
      (.comment (show '\n' ∉ [] by decide) .none) (.closed .none)
  exact ⟨leftFirst, written, (read_written _ _ leftFirst).2 mixed written⟩

end Program

end Coprocessor
