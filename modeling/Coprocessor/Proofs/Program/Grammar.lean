import Coprocessor.Program.Reader

namespace Coprocessor

/-!
# Grammar of programs

Which S-expressions are programs is said twice. The grammar asks of every list
of a tree, at any depth, that it be a tag with at most two children, and of
every declaration that it be two or three atoms with the name of a type in
second place. The list of faults names everything that is wrong with an
S-expression, in the order in which a reader meets it. An S-expression is in the
grammar exactly if its list of faults is empty; reading succeeds on the grammar
and reports the first fault of everything else.
-/

/-- The words that name types, in lower case, with the types that they name. -/
def SymbolType.names : List (String × SymbolType) :=
  [("int", .integer), ("integer", .integer), ("float", .float),
    ("string", .string),
    ("int_const", .integerConstant), ("int_cte", .integerConstant),
    ("float_const", .floatConstant), ("float_cte", .floatConstant),
    ("string_const", .stringConstant), ("string_cte", .stringConstant),
    ("id", .identifier), ("identifier", .identifier)]

/-- The words that name types, in lower case. -/
def SymbolType.words : List String :=
  names.map Prod.fst

/-- The words that name types are those that the look-up knows. -/
theorem SymbolType.ofLowerWord?_eq_lookup (word : String) :
    ofLowerWord? word = names.lookup word := by
  unfold ofLowerWord?
  split
  case h_13 =>
      exact (List.lookup_eq_none_iff.mpr (by simp_all [names])).symm
  all_goals rfl

theorem SymbolType.isSome_ofLowerWord? (word : String) :
    (ofLowerWord? word).isSome = true ↔ word ∈ words := by
  rw [ofLowerWord?_eq_lookup, List.lookup_isSome_iff, words, List.mem_map]
  simp only [beq_iff_eq, @eq_comm _ word]

/-- A word that names a type in lower case is read as a type. -/
theorem SymbolType.exists_ofWord
    {word : String}
    (known : lowerWord word ∈ words) :
    ∃ type, ofWord word = .ok type := by
  obtain ⟨type, found⟩ :=
    Option.isSome_iff_exists.mp ((isSome_ofLowerWord? _).mpr known)
  exact ⟨type, by rw [ofWord, found]⟩

/-- A word that names no type is handed back in lower case. -/
theorem SymbolType.ofWord_of_unknown
    {word : String}
    (unknown : lowerWord word ∉ words) :
    ofWord word = .error (lowerWord word) := by
  have missing : ofLowerWord? (lowerWord word) = none := by
    rw [← Option.not_isSome_iff_eq_none, isSome_ofLowerWord?]
    exact unknown
  rw [ofWord, missing]

namespace SExpr

/-- The expression itself, its items, their items and so on. -/
inductive Part : SExpr → SExpr → Prop where
  | whole (expression : SExpr) : Part expression expression
  | item
      {items : List SExpr}
      {item part : SExpr}
      (member : item ∈ items)
      (inside : Part item part) :
      Part (.list items) part

mutual

/--
The nodes of a tree, each before its children and these from left to right.
-/
def nodes : SExpr → List SExpr
  | .atom value => [.atom value]
  | .list [] => [.list []]
  | .list (head :: children) => .list (head :: children) :: nodesOfAll children

/-- The nodes of trees, one tree after the other. -/
def nodesOfAll : List SExpr → List SExpr
  | [] => []
  | tree :: rest => nodes tree ++ nodesOfAll rest

end

theorem nodesOfAll_eq (trees : List SExpr) :
    nodesOfAll trees = trees.flatMap nodes := by
  induction trees with
  | nil =>
      rfl
  | cons tree rest inductionHypothesis =>
      rw [nodesOfAll, inductionHypothesis, List.flatMap_cons]

end SExpr

namespace Program

/-- The words that stand for another tag than themselves, with these tags. -/
def aliases : List (String × String) :=
  [("seq", ";"), ("body", "cuerpo")]

/--
The tag for which a word stands: its alias if it has one, and
otherwise the word itself.
-/
def aliased (word : String) : String :=
  (aliases.lookup word).getD word

theorem aliased_of_unaliased
    {word : String}
    (unaliased : word ≠ "seq" ∧ word ≠ "body") :
    aliased word = word := by
  have missing : aliases.lookup word = none :=
    List.lookup_eq_none_iff.mpr (by simpa [aliases] using unaliased)
  rw [aliased, missing]
  rfl

theorem tagOfWord_eq_aliased (word : String) :
    tagOfWord word = aliased word := by
  unfold tagOfWord
  split
  case h_3 notSequence notBody =>
      exact (aliased_of_unaliased ⟨notSequence, notBody⟩).symm
  all_goals rfl

/-- A list of a tree: a tag and at most two children. -/
def IsNode (items : List SExpr) : Prop :=
  ∃ tag children, items = .atom tag :: children ∧ children.length ≤ 2

/--
A tree: every list in it, at any depth, is a tag and at most two children.
-/
def IsTree (expression : SExpr) : Prop :=
  ∀ items, expression.Part (.list items) → IsNode items

/-- A declaration: two or three atoms, of which the second names a type. -/
def IsDeclaration (expression : SExpr) : Prop :=
  ∃ name type : Atom, ∃ values : List Atom,
    expression = .list ((name :: type :: values).map .atom) ∧
      values.length ≤ 1 ∧ SymbolType.lowerWord type.content ∈ SymbolType.words

/-- The list of declarations. -/
def declarationList (declarations : List SExpr) : SExpr :=
  .list (.atom (.text "decls") :: declarations)

/--
A program: declarations if there are any, and at most one tree. What stands
first and looks like the declarations is no tree.
-/
inductive IsProgram : SExpr → Prop where
  | declared
      {declarations trees : List SExpr}
      (declare : ∀ declaration ∈ declarations, IsDeclaration declaration)
      (atMostOne : trees.length ≤ 1)
      (grow : ∀ tree ∈ trees, IsTree tree) :
      IsProgram
        (.list
          (.atom (.text "program") :: declarationList declarations :: trees))
  | undeclared
      {trees : List SExpr}
      (noDeclarations : ∀ others, trees.head? ≠ some (declarationList others))
      (atMostOne : trees.length ≤ 1)
      (grow : ∀ tree ∈ trees, IsTree tree) :
      IsProgram (.list (.atom (.text "program") :: trees))

/-- A list is a fault where an atom is wanted. -/
def atomFaults : SExpr → List Fault
  | .atom _ => []
  | .list items => [.malformed (.notAtom (.list items))]

/-- The second atom of a declaration must name a type. -/
def typeFaults : SExpr → SExpr → List Fault
  | .atom name, .atom type =>
      if SymbolType.lowerWord type.content ∈ SymbolType.words then
        []
      else
        [.unknownType name.content (SymbolType.lowerWord type.content)]
  | _, _ => []

/-- What is wrong with a declaration. -/
def declarationFaults : SExpr → List Fault
  | .atom value => [.malformed (.declarationNotList (.atom value))]
  | .list [name, type] =>
      atomFaults name ++ atomFaults type ++ typeFaults name type
  | .list [name, type, value] =>
      atomFaults name ++ atomFaults type ++ typeFaults name type ++
        atomFaults value
  | .list items => [.malformed (.declarationLength (.list items))]

/-- A node with a tag must not have more than two children. -/
def arityFaults : SExpr → List SExpr → List Fault
  | .atom tag, children =>
      if children.length ≤ 2 then
        []
      else
        [.tooManyChildren (aliased tag.content) children.length]
  | .list _, _ => []

/-- What is wrong with a node, apart from its children. -/
def nodeFaults : SExpr → List Fault
  | .atom _ => []
  | .list [] => [.malformed .emptyList]
  | .list (head :: children) => atomFaults head ++ arityFaults head children

/-- What is wrong with a tree, node by node. -/
def treeFaults (tree : SExpr) : List Fault :=
  tree.nodes.flatMap nodeFaults

/--
What is wrong with the trees of a program: that there are several,
and then their nodes.
-/
def treesFaults (trees : List SExpr) : List Fault :=
  (if trees.length ≤ 1 then [] else [.malformed .severalTrees]) ++
    trees.flatMap treeFaults

/--
What is wrong with a program: its outer form, its declarations in
order, its trees.
-/
def faults : SExpr → List Fault
  | .list
    (.atom (.text "program") :: .list (.atom (.text "decls") :: declarations) ::
      trees) =>
      declarations.flatMap declarationFaults ++ treesFaults trees
  | .list (.atom (.text "program") :: trees) => treesFaults trees
  | _ => [.malformed .notProgram]

/--
A result that reports the first of the faults, and is a success without any.
-/
def Reports
    {Result : Type}
    (found : List Fault)
    (result : Except Fault Result) :
    Prop :=
  match found with
  | [] => ∃ value, result = .ok value
  | first :: _ => result = .error first

namespace Reports

variable
    {First Second : Type}
    {early late : List Fault}
    {result : Except Fault First}

theorem ok (value : First) : Reports [] (.ok value : Except Fault First) :=
  ⟨value, rfl⟩

/--
Of two steps the faults of the first come first, and those of the
second only after them.
-/
theorem bind
    {next : First → Except Fault Second}
    (reports : Reports early result)
    (continues : ∀ value, result = .ok value → Reports late (next value)) :
    Reports (early ++ late) (result >>= next) := by
  cases early with
  | nil =>
      obtain ⟨value, rfl⟩ := reports
      exact continues value rfl
  | cons first rest =>
      obtain rfl : result = .error first := reports
      rfl

/-- A last step that cannot fail has no faults of its own. -/
theorem map
    {change : First → Second}
    (reports : Reports early result) :
    Reports early (result >>= fun value => .ok (change value)) := by
  have both :
      Reports (early ++ []) (result >>= fun value => .ok (change value)) :=
    reports.bind fun value _ => ok (change value)
  rwa [List.append_nil] at both

end Reports

theorem reports_atomContent (expression : SExpr) :
    Reports (atomFaults expression) (atomContent expression) := by
  cases expression with
  | atom value =>
      exact .ok value.content
  | list items =>
      rfl

theorem reports_readTyped (name type : SExpr) :
    Reports (atomFaults name ++ atomFaults type ++ typeFaults name type)
      (readTyped name type) := by
  rw [List.append_assoc]
  refine (reports_atomContent name).bind fun nameContent nameRead =>
    (reports_atomContent type).bind fun word wordRead => ?_
  cases name with
  | list items =>
      cases nameRead
  | atom name =>
      cases type with
      | list items =>
          cases wordRead
      | atom type =>
          obtain rfl := Except.ok.inj nameRead
          obtain rfl := Except.ok.inj wordRead
          rw [typeFaults]
          split
          case isTrue known =>
              obtain ⟨type, read⟩ := SymbolType.exists_ofWord known
              rw [read]
              exact .ok _
          case isFalse unknown =>
              rw [SymbolType.ofWord_of_unknown unknown]
              rfl

theorem reports_readDeclaration (expression : SExpr) :
    Reports (declarationFaults expression) (readDeclaration expression) := by
  unfold readDeclaration
  split
  case h_1 name type =>
      exact reports_readTyped name type
  case h_2 name type value =>
      exact (reports_readTyped name type).bind fun symbol _ =>
        (reports_atomContent value).map
  case h_3 items notTwo notThree =>
      rw [declarationFaults]
      · rfl
      · exact notTwo
      · exact notThree
  case h_4 value =>
      rfl

theorem reports_readDeclarations
    (table : Symbol.Table)
    (declarations : List SExpr) :
    Reports (declarations.flatMap declarationFaults)
      (readDeclarations table declarations) := by
  induction declarations generalizing table with
  | nil =>
      exact .ok table
  | cons declaration rest inductionHypothesis =>
      exact (reports_readDeclaration declaration).bind fun symbol _ =>
        inductionHypothesis (table.insert symbol)

theorem treeFaults_list (head : SExpr) (children : List SExpr) :
    treeFaults (.list (head :: children)) =
      atomFaults head ++ arityFaults head children ++
        children.flatMap treeFaults := by
  rw [treeFaults, SExpr.nodes, SExpr.nodesOfAll_eq, List.flatMap_cons,
    List.flatMap_assoc]
  rfl

theorem arityFaults_of_le
    {children : List SExpr}
    (head : SExpr)
    (atMostTwo : children.length ≤ 2) :
    arityFaults head children = [] := by
  cases head with
  | atom tag =>
      exact if_pos atMostTwo
  | list items =>
      rfl

theorem reports_readTree (expression : SExpr) :
    Reports (treeFaults expression) (readTree expression) := by
  fun_induction readTree expression with
  | case1 value =>
      exact .ok _
  | case2 =>
      rfl
  | case3 head =>
      rw [treeFaults_list, arityFaults_of_le head (by decide), List.append_nil]
      exact (reports_atomContent head).bind fun word _ => .ok _
  | case4 head child childReports =>
      rw [treeFaults_list, arityFaults_of_le head (by simp), List.append_nil]
      refine (reports_atomContent head).bind fun word _ => ?_
      rw [List.flatMap_singleton]
      exact childReports.map
  | case5 head first second firstReports secondReports =>
      rw [treeFaults_list, arityFaults_of_le head (by simp), List.append_nil]
      refine (reports_atomContent head).bind fun word _ => ?_
      rw [List.flatMap_cons, List.flatMap_singleton]
      exact firstReports.bind fun left _ => secondReports.map
  | case6 head children notNone notOne notTwo =>
      have tooMany : ¬children.length ≤ 2 := by
        rcases children with _ | ⟨first, _ | ⟨second, _ | ⟨third, rest⟩⟩⟩
        · exact (notNone rfl).elim
        · exact (notOne first rfl).elim
        · exact (notTwo first second rfl).elim
        · simp
      rw [treeFaults_list]
      cases head with
      | atom tag =>
          rw [arityFaults, if_neg tooMany, ← tagOfWord_eq_aliased]
          rfl
      | list items =>
          rfl

theorem reports_readTrees (trees : List SExpr) :
    Reports (treesFaults trees) (readTrees trees) := by
  rcases trees with _ | ⟨tree, _ | ⟨second, rest⟩⟩
  · exact .ok _
  · rw [treesFaults, if_pos (by simp), List.nil_append, List.flatMap_singleton]
    exact reports_readTree tree
  · rw [treesFaults, if_neg (by simp)]
    rfl

/--
The three outer forms: a program with declarations, one without, and
no program at all.
-/
theorem outer_cases (expression : SExpr) :
    (∃ declarations trees,
      expression =
        .list
          (.atom (.text "program") :: declarationList declarations :: trees)) ∨
    (∃ trees,
      expression = .list (.atom (.text "program") :: trees) ∧
        ∀ others, trees.head? ≠ some (declarationList others)) ∨
    ∀ items, expression ≠ .list (.atom (.text "program") :: items) := by
  by_cases isProgram :
      ∃ items, expression = .list (.atom (.text "program") :: items)
  · obtain ⟨items, rfl⟩ := isProgram
    by_cases hasDeclarations :
        ∃ others, items.head? = some (declarationList others)
    · obtain ⟨declarations, first⟩ := hasDeclarations
      obtain ⟨trees, rfl⟩ := List.head?_eq_some_iff.mp first
      exact .inl ⟨declarations, trees, rfl⟩
    · exact .inr
        (.inl ⟨items, rfl, fun others first => hasDeclarations ⟨others, first⟩⟩)
  · exact .inr (.inr fun items same => isProgram ⟨items, same⟩)

section Outer

variable {trees : List SExpr}

theorem splitDeclarations_of_none
    (noDeclarations : ∀ others, trees.head? ≠ some (declarationList others)) :
    splitDeclarations trees = ([], trees) := by
  rw [splitDeclarations]
  rintro others rest rfl
  exact noDeclarations others rfl

theorem faults_of_none
    (noDeclarations : ∀ others, trees.head? ≠ some (declarationList others)) :
    faults (.list (.atom (.text "program") :: trees)) = treesFaults trees := by
  rw [faults]
  rintro others rest rfl
  exact noDeclarations others rfl

end Outer

theorem faults_of_not_program
    {expression : SExpr}
    (notProgram :
      ∀ items, expression ≠ .list (.atom (.text "program") :: items)) :
    faults expression = [.malformed .notProgram] := by
  rw [faults]
  · rintro declarations trees rfl
    exact notProgram _ rfl
  · rintro trees rfl
    exact notProgram _ rfl

/-- Declarations are read before trees. -/
theorem reports_parts (declarations trees : List SExpr) :
    Reports (declarations.flatMap declarationFaults ++ treesFaults trees)
      (do
        let symbols ← readDeclarations .empty declarations
        let tree ← readTrees trees
        let (store, root) := Store.empty.addTree tree
        return (⟨store, symbols, root⟩ : Program)) :=
  (reports_readDeclarations .empty declarations).bind fun _ _ =>
    (reports_readTrees trees).map

/-- Reading reports the first fault of an S-expression. -/
theorem reports_ofSExpr (expression : SExpr) :
    Reports (faults expression) (ofSExpr expression) := by
  rcases outer_cases expression with
    ⟨declarations, trees, rfl⟩ | ⟨trees, rfl, noDeclarations⟩ | notProgram
  · exact reports_parts declarations trees
  · rw [ofSExpr, splitDeclarations_of_none noDeclarations,
      faults_of_none noDeclarations]
    exact reports_parts [] trees
  · rw [faults_of_not_program notProgram, ofSExpr]
    · rfl
    · exact notProgram

/-- Where two steps succeed, the second goes on from what the first gives. -/
theorem exists_of_bind
    {First Second : Type}
    {result : Except Fault First}
    {next : First → Except Fault Second}
    {value : Second}
    (succeeds : (result >>= next) = .ok value) :
    ∃ first, result = .ok first ∧ next first = .ok value := by
  cases result with
  | error fault =>
      cases succeeds
  | ok first =>
      exact ⟨first, rfl, succeeds⟩

/--
A program that has been read is made of its declarations and of a tree in a
store of its own, and these are read from its items.
-/
theorem exists_parts_of_read
    {source : String}
    {program : Program}
    (accepted : read source = .ok program) :
    ∃ items declarations trees symbols tree,
      SExpr.readChars source.toList =
          .ok (.list (.atom (.text "program") :: items)) ∧
        splitDeclarations items = (declarations, trees) ∧
        readDeclarations .empty declarations = .ok symbols ∧
        readTrees trees = .ok tree ∧
        program =
          ⟨(Store.empty.addTree tree).1, symbols,
            (Store.empty.addTree tree).2⟩ := by
  rw [read] at accepted
  split at accepted
  case h_1 expression readable =>
      unfold ofSExpr at accepted
      split at accepted
      case h_1 items =>
          obtain ⟨symbols, declared, accepted⟩ := exists_of_bind accepted
          obtain ⟨tree, grown, accepted⟩ := exists_of_bind accepted
          exact ⟨items, _, _, symbols, tree, readable, rfl, declared, grown,
            (Except.ok.inj accepted).symm⟩
      case h_2 =>
          cases accepted
  case h_2 =>
      cases accepted

theorem atomFaults_eq_nil {expression : SExpr} :
    atomFaults expression = [] ↔ ∃ value, expression = .atom value := by
  cases expression <;> simp [atomFaults]

theorem typeFaults_eq_nil {name type : Atom} :
    typeFaults (.atom name) (.atom type) = [] ↔
      SymbolType.lowerWord type.content ∈ SymbolType.words := by
  rw [typeFaults]
  split <;> simp_all

/-- The declarations of the grammar are those without faults. -/
theorem declarationFaults_eq_nil {expression : SExpr} :
    declarationFaults expression = [] ↔ IsDeclaration expression := by
  constructor
  · intro faultless
    unfold declarationFaults at faultless
    split at faultless
    case h_1 => cases faultless
    case h_2 name type =>
        simp only [List.append_eq_nil_iff, atomFaults_eq_nil] at faultless
        obtain ⟨⟨⟨name, rfl⟩, ⟨type, rfl⟩⟩, known⟩ := faultless
        exact ⟨name, type, [], rfl, Nat.zero_le 1, typeFaults_eq_nil.mp known⟩
    case h_3 name type value =>
        simp only [List.append_eq_nil_iff, atomFaults_eq_nil] at faultless
        obtain ⟨⟨⟨⟨name, rfl⟩, ⟨type, rfl⟩⟩, known⟩, ⟨value, rfl⟩⟩ := faultless
        exact ⟨name, type, [value], rfl, Nat.le_refl 1,
          typeFaults_eq_nil.mp known⟩
    case h_4 => cases faultless
  · rintro ⟨name, type, values, rfl, atMostOne, known⟩
    have typed : typeFaults (.atom name) (.atom type) = [] :=
      typeFaults_eq_nil.mpr known
    rcases values with _ | ⟨value, _ | ⟨second, rest⟩⟩
    · exact typed
    · exact List.append_eq_nil_iff.mpr ⟨typed, rfl⟩
    · simp at atMostOne

theorem isTree_atom (value : Atom) : IsTree (.atom value) := by
  rintro items ⟨⟩

/-- A list is a tree if it is a node and its items are trees. -/
theorem isTree_list {items : List SExpr} :
    IsTree (.list items) ↔ IsNode items ∧ ∀ item ∈ items, IsTree item := by
  constructor
  · intro tree
    exact ⟨tree items (.whole _),
      fun item member inner inside => tree inner (.item member inside)⟩
  · rintro ⟨node, subtrees⟩ inner inside
    cases inside with
    | whole =>
        exact node
    | item member inside =>
        exact subtrees _ member inner inside

/-- A node without faults has a tag and at most two children. -/
theorem nodeFaults_eq_nil {head : SExpr} {children : List SExpr} :
    atomFaults head ++ arityFaults head children = [] ↔
      IsNode (head :: children) := by
  rw [List.append_eq_nil_iff, atomFaults_eq_nil]
  constructor
  · rintro ⟨⟨tag, rfl⟩, faultless⟩
    rw [arityFaults] at faultless
    split at faultless
    case isTrue atMostTwo => exact ⟨tag, children, rfl, atMostTwo⟩
    case isFalse => cases faultless
  · rintro ⟨tag, _, same, atMostTwo⟩
    cases same
    exact ⟨⟨tag, rfl⟩, arityFaults_of_le _ atMostTwo⟩

/-- The trees of the grammar are those without faults. -/
theorem treeFaults_eq_nil : ∀ tree : SExpr, treeFaults tree = [] ↔ IsTree tree
  | .atom value => iff_of_true rfl (isTree_atom value)
  | .list [] => by
      refine iff_of_false (List.cons_ne_nil _ _) fun tree => ?_
      obtain ⟨tag, children, same, _⟩ := tree [] (.whole _)
      cases same
  | .list (head :: children) => by
      have subtrees :
          ∀ child ∈ children, treeFaults child = [] ↔ IsTree child :=
        fun child member => treeFaults_eq_nil child
      rw [treeFaults_list, List.append_eq_nil_iff, nodeFaults_eq_nil,
        isTree_list, List.flatMap_eq_nil_iff, List.forall_mem_cons]
      constructor
      · rintro ⟨node, faultless⟩
        obtain ⟨tag, _, same, _⟩ := id node
        cases same
        exact ⟨node, isTree_atom tag,
          fun child member =>
            (subtrees child member).mp (faultless child member)⟩
      · rintro ⟨node, -, below⟩
        exact ⟨node,
          fun child member => (subtrees child member).mpr (below child member)⟩

theorem treesFaults_eq_nil {trees : List SExpr} :
    treesFaults trees = [] ↔
      trees.length ≤ 1 ∧ ∀ tree ∈ trees, IsTree tree := by
  have subtrees :
      trees.flatMap treeFaults = [] ↔ ∀ tree ∈ trees, IsTree tree := by
    simp only [List.flatMap_eq_nil_iff, treeFaults_eq_nil]
  rw [treesFaults, List.append_eq_nil_iff, subtrees, ite_eq_left_iff]
  simp

/-- The programs of the grammar are the S-expressions without faults. -/
theorem faults_eq_nil {expression : SExpr} :
    faults expression = [] ↔ IsProgram expression := by
  rcases outer_cases expression with
    ⟨declarations, trees, rfl⟩ | ⟨trees, rfl, noDeclarations⟩ | notProgram
  · have same :
        faults
          (.list
            (.atom (.text "program") :: declarationList declarations ::
              trees)) =
        declarations.flatMap declarationFaults ++ treesFaults trees := rfl
    rw [same, List.append_eq_nil_iff, List.flatMap_eq_nil_iff,
      treesFaults_eq_nil]
    constructor
    · rintro ⟨declare, atMostOne, grow⟩
      exact .declared
        (fun item member => declarationFaults_eq_nil.mp (declare item member))
        atMostOne grow
    · rintro (⟨declare, atMostOne, grow⟩ | ⟨noDeclarations, _, _⟩)
      · exact ⟨fun item member =>
          declarationFaults_eq_nil.mpr (declare item member), atMostOne, grow⟩
      · exact (noDeclarations declarations rfl).elim
  · rw [faults_of_none noDeclarations, treesFaults_eq_nil]
    constructor
    · rintro ⟨atMostOne, grow⟩
      exact .undeclared noDeclarations atMostOne grow
    · rintro (⟨_, _, _⟩ | ⟨_, atMostOne, grow⟩)
      · exact (noDeclarations _ rfl).elim
      · exact ⟨atMostOne, grow⟩
  · rw [faults_of_not_program notProgram]
    refine iff_of_false (List.cons_ne_nil _ _) ?_
    rintro (⟨_, _, _⟩ | ⟨_, _, _⟩) <;> exact notProgram _ rfl

/--
Of a text that is an S-expression, reading makes a program exactly if the
S-expression is one, and reports its first fault exactly if it has one.
-/
theorem read_decided
    (source : String)
    (expression : SExpr)
    (readable : SExpr.readChars source.toList = .ok expression) :
    ((∃ program, read source = .ok program) ↔ IsProgram expression) ∧
      ∀ fault, read source = .error fault ↔
        (faults expression).head? = some fault := by
  have reports : Reports (faults expression) (read source) := by
    rw [read, readable]
    exact reports_ofSExpr expression
  rw [← faults_eq_nil]
  cases found : faults expression with
  | nil =>
      rw [found] at reports
      obtain ⟨program, success⟩ := reports
      simp [success]
  | cons first rest =>
      rw [found] at reports
      have failure : read source = .error first := reports
      simp [failure]

/-- A text with a wrong type, behind it a wrong value, and a wrong tree. -/
def misdeclared : String :=
  "(program (decls (a FLOAT) (\"b c\" \"Re al\" (1))) (+ () 2 3 4)) ; end"

/-- The misdeclared program as an S-expression. -/
def misdeclaredExpression : SExpr :=
  .list [.atom (.text "program"),
    .list [.atom (.text "decls"),
      .list [.atom (.text "a"), .atom (.text "FLOAT")],
      .list [.atom (.text "b c"), .atom (.text "Re al"),
        .list [.atom (.integer 1)]]],
    .list [.atom (.text "+"), .list [], .atom (.integer 2), .atom (.integer 3),
      .atom (.integer 4)]]

theorem read_decided_misdeclared :
    SExpr.readChars misdeclared.toList = .ok misdeclaredExpression ∧
      ¬IsProgram misdeclaredExpression ∧
        read misdeclared = .error (.unknownType "b c" "re al") := by
  have readable :
      SExpr.readChars misdeclared.toList = .ok misdeclaredExpression := rfl
  obtain ⟨accepted, rejected⟩ :=
    read_decided misdeclared misdeclaredExpression readable
  have failure : read misdeclared = .error (.unknownType "b c" "re al") :=
    (rejected _).mpr rfl
  refine ⟨readable, fun isProgram => ?_, failure⟩
  obtain ⟨program, success⟩ := accepted.mpr isProgram
  rw [failure] at success
  cases success

end Program

end Coprocessor
