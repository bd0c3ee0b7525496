import Coprocessor.Proofs.Assembly.LineFeeds
import Coprocessor.Proofs.Compile.DefinedNames
import Coprocessor.Proofs.Program.Grammar
import Coprocessor.Proofs.Symbol.History
import Coprocessor.Proofs.Tree.Literals

namespace Coprocessor

open Assembly

/-!
# Line feeds of compiled programs

The text of a program reaches its listing in four ways: names of symbols and of
variables with their blanks replaced, literals without the blanks around them,
and the comments that announce the load of a literal or a variable, which show
it as it is written. So the listing holds the line feeds of the literals and
variables that are loaded, in those comments and nowhere else.
-/

/-- Whether every literal of an expression is a numeral. -/
def Expr.NumeralsOnly : Expr → Prop
  | .literal lexeme => isLiteral lexeme = true
  | .absent | .misplaced | .variable _ => True
  | .arithmetic _ left right | .modulo left right | .comparison _ left right =>
      left.NumeralsOnly ∧ right.NumeralsOnly

/-- Whether every literal of a statement is a numeral. -/
def Stmt.NumeralsOnly : Stmt → Prop
  | .skip => True
  | .sequence first second => first.NumeralsOnly ∧ second.NumeralsOnly
  | .conditional condition body | .loop condition body =>
      condition.NumeralsOnly ∧ body.NumeralsOnly
  | .choice condition onTrue onFalse =>
      condition.NumeralsOnly ∧ onTrue.NumeralsOnly ∧ onFalse.NumeralsOnly
  | .assignment _ value | .evaluation value => value.NumeralsOnly

theorem Expr.numeralsOnly_ofTree (tree : Tree String) :
    (ofTree tree).NumeralsOnly := by
  induction tree with
  | absent =>
      trivial
  | node tag left right leftNumerals rightNumerals =>
      rw [ofTree]
      cases kind : Kind.ofTag tag with
      | literal =>
          exact isLiteral_of_kind kind
      | arithmetic | modulo | comparison =>
          exact ⟨leftNumerals, rightNumerals⟩
      | sequence | conditional | loop | assignment | alternatives
      | identifier =>
          trivial

theorem Stmt.numeralsOnly_assign
    (target : Tree String)
    {value : Expr}
    (numerals : value.NumeralsOnly) :
    (assign target value).NumeralsOnly := by
  cases target with
  | absent =>
      trivial
  | node tag left right =>
      rw [assign]
      split_ifs
      · exact numerals
      · trivial

theorem Stmt.numeralsOnly_ofTree (tree : Tree String) :
    (ofTree tree).NumeralsOnly := by
  have inOperand := Expr.numeralsOnly_ofTree
  fun_induction ofTree tree with
  | case1 =>
      trivial
  | case2 tag left right isSequence first second =>
      exact ⟨first, second⟩
  | case3 tag condition isConditional =>
      exact ⟨inOperand condition, trivial⟩
  | case4 tag condition isConditional inner onTrue onFalse hasTwo first
      second =>
      exact ⟨inOperand condition, first, second⟩
  | case5 tag condition isConditional inner left right hasOne body =>
      exact ⟨inOperand condition, body⟩
  | case6 tag condition body isLoop inductionHypothesis =>
      exact ⟨inOperand condition, inductionHypothesis⟩
  | case7 tag target value isAssignment =>
      exact numeralsOnly_assign target (inOperand value)
  | case8 | case9 | case10 | case11 | case12 | case13 =>
      exact inOperand _

/-- The literals and variables that an expression loads, as they are written. -/
def Expr.lexemes : Expr → List String
  | .absent | .misplaced => []
  | .literal lexeme => [lexeme]
  | .variable name => [name]
  | .arithmetic _ left right | .modulo left right | .comparison _ left right =>
      left.lexemes ++ right.lexemes

/-- The literals and variables that a statement loads, as they are written. -/
def Stmt.lexemes : Stmt → List String
  | .skip => []
  | .sequence first second => first.lexemes ++ second.lexemes
  | .conditional condition body | .loop condition body =>
      condition.lexemes ++ body.lexemes
  | .choice condition onTrue onFalse =>
      condition.lexemes ++ onTrue.lexemes ++ onFalse.lexemes
  | .assignment _ value | .evaluation value => value.lexemes

namespace Compile

theorem mem_withFraction
    {numeral : List Char}
    {character : Char}
    (member : character ∈ withFraction numeral) :
    character = '.' ∨ character = '0' ∨ character ∈ numeral := by
  simp only [withFraction] at member
  split_ifs at member with hasPoint
  · exact .inr (.inr member)
  · rcases List.mem_append.mp member with inMantissa | behind
    · exact .inr (.inr (List.takeWhile_subset _ inMantissa))
    · rcases List.mem_cons.mp behind with isPoint | behindPoint
      · exact .inl isPoint
      · rcases List.mem_cons.mp behindPoint with isZero | inExponent
        · exact .inr (.inl isZero)
        · exact .inr (.inr (List.dropWhile_subset _ inExponent))

/-- The initial value of a numeral holds no line feed. -/
theorem feed_not_mem_literalInitial
    {lexeme : String}
    (numeral : isLiteral lexeme = true)
    (form : LiteralForm) :
    '\n' ∉ (literalInitial form lexeme).toList := by
  have notInNumeral : '\n' ∉ Text.trimChars lexeme.toList := by
    intro member
    unfold isLiteral at numeral
    split at numeral
    case h_1 value reads =>
        have wrong := Decimal.isNumeralCharacter_of_read? reads member
        revert wrong
        decide
    case h_2 =>
        cases numeral
  cases form with
  | verbatim =>
      rwa [literalInitial, Text.trim, String.toList_ofList]
  | real =>
      rw [literalInitial, String.toList_ofList]
      intro member
      rcases mem_withFraction member with isPoint | isZero | inNumeral
      · cases isPoint
      · cases isZero
      · exact notInNumeral inNumeral

theorem isWhole_declareTemporary (number : Nat) :
    (declareTemporary number).IsWhole :=
  Declaration.isWhole_of_parts (Cell.isWhole_temporary number)
    (show '\n' ∉ ("DD " ++ "0.0").toList by decide)

theorem isWhole_declareSlot (number : Nat) : (declareSlot number).IsWhole :=
  Declaration.isWhole_of_parts (Cell.isWhole_slot number)
    (show '\n' ∉ "DD 0".toList by decide)

theorem isWhole_declareLiteral
    {initial : String}
    (whole : '\n' ∉ initial.toList)
    (number : Nat) :
    (declareLiteral number initial).IsWhole := by
  refine Declaration.isWhole_of_parts (Cell.isWhole_literal number) ?_
  show '\n' ∉ ("DD " ++ initial).toList
  simp [whole]

theorem isWhole_fixed (rounding : QuotientRounding) :
    ∀ declaration ∈ fixedDeclarations rounding, declaration.IsWhole := by
  have all :
      (fixedDeclarations rounding).all (fun declaration =>
        !declaration.render.toList.contains '\n') = true := by
    cases rounding <;> decide
  intro declaration member
  simpa [Declaration.IsWhole] using List.all_eq_true.mp all declaration member

/-- The declarations of an expression hold no line feed. -/
theorem isWhole_data_expression
    {options : Options}
    {value : Expr}
    (numerals : value.NumeralsOnly)
    (counters : Counters) :
    ∀ declaration ∈ (expression options value counters).data,
      declaration.IsWhole := by
  have temporary := isWhole_declareTemporary
  induction value generalizing counters with
  | absent | misplaced | «variable» name =>
      exact List.forall_mem_singleton.mpr (temporary _)
  | literal lexeme =>
      have initial := feed_not_mem_literalInitial numerals options.literals
      exact List.forall_mem_cons.mpr ⟨temporary _,
        List.forall_mem_singleton.mpr (isWhole_declareLiteral initial _)⟩
  | arithmetic operation left right leftWhole rightWhole
  | comparison relation left right leftWhole rightWhole =>
      exact List.forall_mem_append.mpr ⟨List.forall_mem_append.mpr
        ⟨leftWhole numerals.1 _, rightWhole numerals.2 _⟩,
        List.forall_mem_singleton.mpr (temporary _)⟩
  | modulo left right leftWhole rightWhole =>
      refine List.forall_mem_append.mpr ⟨List.forall_mem_append.mpr
        ⟨leftWhole numerals.1 _, rightWhole numerals.2 _⟩, ?_⟩
      simp [temporary, isWhole_declareSlot]

/-- The declarations of a statement hold no line feed. -/
theorem isWhole_data_statement
    {options : Options}
    {body : Stmt}
    (numerals : body.NumeralsOnly)
    (counters : Counters) :
    ∀ declaration ∈ (statement options body counters).data,
      declaration.IsWhole := by
  induction body generalizing counters with
  | skip =>
      exact List.forall_mem_nil _
  | sequence first second firstWhole secondWhole =>
      exact List.forall_mem_append.mpr
        ⟨firstWhole numerals.1 _, secondWhole numerals.2 _⟩
  | conditional condition body bodyWhole | loop condition body bodyWhole =>
      exact List.forall_mem_append.mpr
        ⟨isWhole_data_expression numerals.1 _, bodyWhole numerals.2 _⟩
  | choice condition onTrue onFalse trueWhole falseWhole =>
      exact List.forall_mem_append.mpr ⟨List.forall_mem_append.mpr
        ⟨isWhole_data_expression numerals.1 _, trueWhole numerals.2.1 _⟩,
        falseWhole numerals.2.2 _⟩
  | assignment target value | evaluation value =>
      exact isWhole_data_expression numerals _

/-- The comment in front of the load of a literal or a variable. -/
def IsLoadComment
    (line : Line)
    (lexeme : String) :
    Prop :=
  line = .comment ("load literal " ++ lexeme) ∨
    line = .comment ("load variable " ++ lexeme)

/--
The lines hold the line feeds of the given lexemes, in comments that announce
their load and nowhere else.
-/
structure Shows
    (lexemes : List String)
    (code : List Line) :
    Prop where
  count :
    (written code).count '\n' = (lexemes.flatMap String.toList).count '\n'
  announced :
    ∀ line ∈ code, ¬ line.IsWhole →
      ∃ lexeme ∈ lexemes, '\n' ∈ lexeme.toList ∧ IsLoadComment line lexeme

namespace Shows

theorem of_isWhole
    {code : List Line}
    (whole : ∀ line ∈ code, line.IsWhole) :
    Shows [] code where
  count := count_written_of_isWhole whole
  announced line member broken := absurd (whole line member) broken

theorem append
    {lexemes otherLexemes : List String}
    {code otherCode : List Line}
    (shows : Shows lexemes code)
    (other : Shows otherLexemes otherCode) :
    Shows (lexemes ++ otherLexemes) (code ++ otherCode) where
  count := by
    rw [written_append, List.count_append, List.flatMap_append,
      List.count_append, shows.count, other.count]
  announced := by
    intro line member broken
    rcases List.mem_append.mp member with inFirst | inSecond
    · obtain ⟨lexeme, isLexeme, announced⟩ :=
        shows.announced line inFirst broken
      exact ⟨lexeme, List.mem_append_left _ isLexeme, announced⟩
    · obtain ⟨lexeme, isLexeme, announced⟩ :=
        other.announced line inSecond broken
      exact ⟨lexeme, List.mem_append_right _ isLexeme, announced⟩

/-- Whole lines may stand in front. -/
theorem behind
    {lexemes : List String}
    {front code : List Line}
    (shows : Shows lexemes code)
    (whole : ∀ line ∈ front, line.IsWhole) :
    Shows lexemes (front ++ code) :=
  (of_isWhole whole).append shows

/-- Whole lines may follow. -/
theorem followed
    {lexemes : List String}
    {code back : List Line}
    (shows : Shows lexemes code)
    (whole : ∀ line ∈ back, line.IsWhole) :
    Shows lexemes (code ++ back) := by
  simpa using shows.append (of_isWhole whole)

/-- The code of a load shows what is loaded. -/
theorem load
    {title lexeme : String}
    {source target : Cell}
    (titleWhole : '\n' ∉ title.toList)
    (announces : IsLoadComment (.comment (title ++ lexeme)) lexeme)
    (sourceWhole : source.IsWhole)
    (targetWhole : target.IsWhole) :
    Shows [lexeme]
      [.blank, .comment (title ++ lexeme), .code (.load source),
        .code (.store target)] := by
  have comment : Shows [lexeme] [.comment (title ++ lexeme)] := by
    constructor
    · simp [written, Line.render, titleWhole, List.count_eq_zero_of_not_mem]
    · intro line member broken
      obtain rfl := List.mem_singleton.mp member
      refine ⟨lexeme, List.mem_singleton_self lexeme, ?_, announces⟩
      simpa [titleWhole] using broken
  have loads :
      ∀ line ∈ [Line.code (.load source), .code (.store target)],
        line.IsWhole := by
    simp [Line.code, Instr.IsWhole, Instr.cell?, sourceWhole, targetWhole]
  have blank : ∀ line ∈ [Line.blank], line.IsWhole :=
    List.forall_mem_singleton.mpr Line.isWhole_blank
  exact (comment.behind blank).followed loads

end Shows

section Pieces

variable
    {left right result : Cell}
    (leftWhole : left.IsWhole)
    (rightWhole : right.IsWhole)
    (resultWhole : result.IsWhole)

include leftWhole rightWhole resultWhole

theorem isWhole_combineCode (operation : Arithmetic) :
    ∀ line ∈ combineCode operation left right result, line.IsWhole := by
  simp [combineCode, Line.code, Instr.IsWhole, Instr.cell?, leftWhole,
    rightWhole, resultWhole]

theorem isWhole_arithmeticCode (operation : Arithmetic) :
    ∀ line ∈ arithmeticCode operation left right result, line.IsWhole := by
  have title :
      ∀ line ∈
        [Line.blank, .comment ("--- BinOp " ++ operation.sign ++ " ---")],
      line.IsWhole := by
    cases operation <;> simp [Arithmetic.sign]
  have combines :=
    isWhole_combineCode leftWhole rightWhole resultWhole operation
  exact List.forall_mem_append.mpr
    ⟨List.forall_mem_append.mpr ⟨title, combines⟩, by simp⟩

theorem isWhole_comparisonCode
    (mode : ComparisonResult)
    (relation : Relation)
    (number : Nat) :
    ∀ line ∈ comparisonCode mode relation left right result number,
      line.IsWhole := by
  have title : '\n' ∉ relation.sign.toList := by
    cases relation <;> decide
  cases mode <;>
    simp [comparisonCode, flagsOfTop, Line.code, Instr.IsWhole, Instr.cell?,
      title, leftWhole, rightWhole, resultWhole]

end Pieces

theorem isWhole_moduloCode
    (rounding : QuotientRounding)
    {left right : Cell}
    (leftWhole : left.IsWhole)
    (rightWhole : right.IsWhole)
    (quotient slot whole product result : Nat) :
    ∀ line ∈ moduloCode rounding left right (.temporary quotient) (.slot slot)
      (.temporary whole) (.temporary product) (.temporary result),
        line.IsWhole := by
  cases rounding <;>
    simp [moduloCode, combineCode, roundCode, Line.code, Instr.IsWhole,
      Instr.cell?, leftWhole, rightWhole]

/-- The temporary of an expression is whole. -/
theorem isWhole_cell_expression
    (options : Options)
    (value : Expr)
    (counters : Counters) :
    (expression options value counters).cell.IsWhole := by
  obtain ⟨number, isTemporary⟩ := cell_expression options value counters
  rw [isTemporary]
  exact Cell.isWhole_temporary number

/-- The code of an expression shows the lexemes of the expression. -/
theorem shows_expression
    (options : Options)
    (value : Expr)
    (counters : Counters) :
    Shows value.lexemes (expression options value counters).code := by
  have cellWhole := isWhole_cell_expression options
  induction value generalizing counters with
  | absent | misplaced =>
      refine .of_isWhole ?_
      simp [expression, zeroOperand, Line.code, Instr.IsWhole, Instr.cell?]
  | literal lexeme =>
      exact .load (by decide) (.inl rfl) (Cell.isWhole_literal _)
        (Cell.isWhole_temporary _)
  | «variable» name =>
      exact .load (by decide) (.inr rfl) (Cell.isWhole_variable name)
        (Cell.isWhole_temporary _)
  | arithmetic operation left right leftShows rightShows =>
      exact ((leftShows _).append (rightShows _)).followed
        (isWhole_arithmeticCode (cellWhole left _) (cellWhole right _)
          (Cell.isWhole_temporary _) operation)
  | modulo left right leftShows rightShows =>
      have title :
          ∀ line ∈ [Line.blank, .comment "--- Modulo (left % right) ---"],
          line.IsWhole := by
        simp
      exact (((leftShows _).behind title).append (rightShows _)).followed
        (isWhole_moduloCode options.modulo (cellWhole left _)
          (cellWhole right _) _ _ _ _ _)
  | comparison relation left right leftShows rightShows =>
      exact ((leftShows _).append (rightShows _)).followed
        (isWhole_comparisonCode (cellWhole left _) (cellWhole right _)
          (Cell.isWhole_temporary _) options.comparison relation _)

theorem isWhole_jumpIfZero
    {cell : Cell}
    (whole : cell.IsWhole)
    (target : Label) :
    ∀ line ∈ jumpIfZero cell target, line.IsWhole := by
  simp [jumpIfZero, flagsOfTop, Line.code, Instr.IsWhole, Instr.cell?, whole]

theorem isWhole_conditionalHead
    {cell : Cell}
    (whole : cell.IsWhole)
    (number : Nat) :
    ∀ line ∈ conditionalHead cell number, line.IsWhole :=
  List.forall_mem_append.mpr ⟨by simp, isWhole_jumpIfZero whole _⟩

/-- The code of a statement shows the lexemes of the statement. -/
theorem shows_statement
    (options : Options)
    (body : Stmt)
    (counters : Counters) :
    Shows body.lexemes (statement options body counters).code := by
  have inExpression := shows_expression options
  have cellWhole := isWhole_cell_expression options
  induction body generalizing counters with
  | skip =>
      exact .of_isWhole (List.forall_mem_nil _)
  | sequence first second firstShows secondShows =>
      exact (firstShows _).append (secondShows _)
  | conditional condition body bodyShows =>
      exact (((inExpression condition _).followed (isWhole_conditionalHead
        (cellWhole condition _) _)).append (bodyShows _)).followed (by simp)
  | choice condition onTrue onFalse trueShows falseShows =>
      exact (((((inExpression condition _).followed (isWhole_conditionalHead
        (cellWhole condition _) _)).append (trueShows _)).followed (by
          simp [Line.code, Instr.IsWhole, Instr.cell?])).append
            (falseShows _)).followed (by simp)
  | loop condition body bodyShows =>
      have head : ∀ line ∈ loopHead (counters.labels + 1), line.IsWhole := by
        simp [loopHead]
      have tail : ∀ line ∈ loopTail (counters.labels + 1), line.IsWhole := by
        simp [loopTail, Line.code, Instr.IsWhole, Instr.cell?]
      exact ((((inExpression condition _).behind head).followed
        (isWhole_jumpIfZero
        (cellWhole condition _) _)).append (bodyShows _)).followed tail
  | assignment target value =>
      have assigns :
          ∀ line ∈ assignCode (expression options value counters).cell target,
            line.IsWhole := by
        simp [assignCode, Instr.IsWhole, Instr.cell?, cellWhole value counters]
      exact ((inExpression value _).behind (by simp)).followed assigns
  | evaluation value =>
      exact inExpression value counters

end Compile

namespace Program

theorem isOrdered_readDeclarations
    {table result : Symbol.Table}
    {items : List SExpr}
    (ordered : table.IsOrdered)
    (reads : readDeclarations table items = .ok result) :
    result.IsOrdered := by
  induction items generalizing table with
  | nil =>
      obtain rfl := Except.ok.inj reads
      exact ordered
  | cons item rest inductionHypothesis =>
      rw [readDeclarations] at reads
      cases declared : readDeclaration item with
      | error fault =>
          rw [declared] at reads
          cases reads
      | ok symbol =>
          rw [declared] at reads
          exact inductionHypothesis (ordered.insert symbol) reads

/-- The symbols of a program that has been read are in order. -/
theorem isOrdered_of_read
    {source : String}
    {program : Program}
    (reads : read source = .ok program) :
    program.symbols.IsOrdered := by
  obtain ⟨_, _, _, symbols, _, -, -, declared, -, rfl⟩ :=
    exists_parts_of_read reads
  exact isOrdered_readDeclarations Symbol.Table.isOrdered_empty declared

theorem isWhole_declareSymbol
    {symbol : Symbol}
    (stored : Symbol.storedName symbol.name = symbol.name) :
    (Compile.declareSymbol symbol).IsWhole := by
  refine Declaration.isWhole_of_parts ?_ ?_
  · show (Cell.variable symbol.name).IsWhole
    rw [← stored]
    exact Cell.isWhole_variable symbol.name
  · show '\n' ∉ (Compile.symbolStorage symbol.effectiveType).directive.toList
    cases symbol.effectiveType <;> decide

/-- The data section of a program whose symbols have stored names is whole. -/
theorem isWhole_data
    {program : Program}
    (ordered : program.symbols.IsOrdered)
    (options : Compile.Options) :
    ∀ line ∈ (program.listing options).data, line.IsWhole := by
  have header : ∀ line ∈ Compile.dataHeader, line.IsWhole := by
    simp [Compile.dataHeader]
  have symbols :
      ∀ line ∈ program.symbols.symbols.map fun symbol =>
        Line.declare (Compile.declareSymbol symbol), line.IsWhole :=
    List.forall_mem_map.mpr fun symbol member =>
      isWhole_declareSymbol (ordered.stored symbol member)
  have fixed := Compile.isWhole_fixed options.modulo
  have numbered :
      ∀ declaration ∈ (program.fragment options).data, declaration.IsWhole :=
    Compile.isWhole_data_statement (Stmt.numeralsOnly_ofTree _) _
  have cells := List.forall_mem_append.mpr ⟨fixed, numbered⟩
  refine List.forall_mem_append.mpr
    ⟨List.forall_mem_append.mpr ⟨List.forall_mem_append.mpr
    ⟨header, symbols⟩, by simp⟩, List.forall_mem_map.mpr cells⟩

/-- The code section of a program shows the lexemes of its statement. -/
theorem shows_code
    (program : Program)
    (options : Compile.Options) :
    Compile.Shows (Compile.statementOf program.tree).lexemes
      (program.listing options).code :=
  ((Compile.shows_statement options _ _).behind
    (by simp [Compile.codeHeader])).followed (by simp [Compile.codeFooter])

/--
Every line feed inside a line of a program's listing is one of a loaded lexeme.
-/
theorem count_written_lines
    {program : Program}
    (ordered : program.symbols.IsOrdered)
    (options : Compile.Options) :
    (written (program.listing options).lines).count '\n' =
      ((Compile.statementOf program.tree).lexemes.flatMap String.toList).count
        '\n' := by
  rw [Listing.lines, written_append, List.count_append,
    count_written_of_isWhole (isWhole_data ordered options), Nat.zero_add,
    (program.shows_code options).count]

/--
A program that has been read may break the lines of its listing in one way only:
a literal or a variable that holds a line feed takes it into the comment that
announces its load. Every line of the data section and every instruction is a
line of the text, the text has as many further lines as the loaded lexemes have
line feeds, and its lines are those of the listing if there are none.
-/
theorem lines_broken_by_lexemes
    {source : String}
    {program : Program}
    (reads : read source = .ok program)
    (options : Compile.Options) :
    let listing := program.listing options
    let lexemes := (Compile.statementOf program.tree).lexemes
    (∀ line ∈ listing.data, line.IsWhole) ∧
      (∀ line ∈ listing.code, ¬ line.IsWhole →
        ∃ lexeme ∈ lexemes,
          '\n' ∈ lexeme.toList ∧ Compile.IsLoadComment line lexeme) ∧
      (Text.lines listing.render.toList).length =
        listing.lines.length + (lexemes.flatMap String.toList).count '\n' ∧
      (Text.lines listing.render.toList =
        listing.lines.map (fun line => line.render.toList) ↔
        ∀ lexeme ∈ lexemes, '\n' ∉ lexeme.toList) := by
  intro listing lexemes
  have ordered := isOrdered_of_read reads
  have dataWhole := isWhole_data ordered options
  have shows := program.shows_code options
  have length :
      (Text.lines listing.render.toList).length =
        listing.lines.length + (lexemes.flatMap String.toList).count '\n' := by
    rw [Listing.length_lines_render, count_written_lines ordered]
  refine ⟨dataWhole, shows.announced, length, ?_, ?_⟩
  · intro sameLines lexeme isLexeme hasFeed
    rw [sameLines, List.length_map] at length
    have noFeed : (lexemes.flatMap String.toList).count '\n' = 0 := by
      omega
    exact List.count_eq_zero.mp noFeed
      (List.mem_flatMap.mpr ⟨lexeme, isLexeme, hasFeed⟩)
  · intro noFeed
    refine Listing.lines_render_of_isWhole
      (List.forall_mem_append.mpr ⟨dataWhole, ?_⟩)
    intro line member
    by_contra broken
    obtain ⟨lexeme, isLexeme, hasFeed, -⟩ := shows.announced line member broken
    exact noFeed lexeme isLexeme hasFeed

/-- The text of a program that loads a variable whose name has a second line. -/
def twoLinedSource : String :=
  "(program (decls (\"a b\" float)) (= b \"a\nEnd\"))"

/-- The program that the text stands for. -/
def twoLined : Program :=
  let (store, root) :=
    Store.empty.addTree (.node "=" (.leaf "b") (.leaf "a\nEnd"))
  ⟨store, ⟨[(Symbol.ofName "a_b").withType .float]⟩, root⟩

theorem lines_broken_by_lexemes_twoLined :
    read twoLinedSource = .ok twoLined ∧
      (Text.lines (twoLined.listing {}).render.toList).length =
        (twoLined.listing {}).lines.length + 1 ∧
      Text.lines (twoLined.listing {}).render.toList ≠
        (twoLined.listing {}).lines.map (fun line => line.render.toList) := by
  have reads : read twoLinedSource = .ok twoLined := rfl
  have loads : (Compile.statementOf twoLined.tree).lexemes = ["a\nEnd"] := by
    decide
  obtain ⟨-, -, length, same⟩ := lines_broken_by_lexemes reads {}
  rw [loads] at length same
  exact ⟨reads, length, fun sameLines =>
    same.mp sameLines "a\nEnd" (List.mem_singleton_self _) (by decide)⟩

/--
The comment in front of the load takes two lines, and the second
ends the listing.
-/
theorem load_comment_ends_listing :
    read twoLinedSource = .ok twoLined ∧
      Line.comment "load variable a\nEnd" ∈ (twoLined.listing {}).code ∧
      Text.lines (Line.comment "load variable a\nEnd").render.toList =
        ["; load variable a".toList, (Line.directive "End").render.toList] :=
  ⟨rfl, by decide, by decide⟩

end Program

end Coprocessor
