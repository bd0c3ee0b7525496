import Coprocessor.Proofs.Compile.Simulation

namespace Coprocessor

open Assembly Machine

/-!
# Compiled programs mean what their trees mean

The loaded data section gives every literal its value and leaves the variables
alone, so the code of a program starts prepared. With exact numbers the machine
then comes to the end of the program exactly where the tree comes to its end,
and the variables have the same values.
-/

namespace Machine

/-- The integer next to a number, the even one of two that are equally near. -/
def nearestInteger (value : ℚ) : Int :=
  if value - ⌊value⌋ < 1 / 2 ∨ value - ⌊value⌋ = 1 / 2 ∧ Even ⌊value⌋ then
    ⌊value⌋
  else
    ⌊value⌋ + 1

/-- Exact rational numbers in eight registers, with a given quotient by zero. -/
def Numerics.exact (byZero : ℚ) : Numerics ℚ where
  hasRoom depth := depth < 8
  ofRat := id
  ofInteger := Int.cast
  combine := Arithmetic.exact byZero
  toInteger rounding value :=
    match rounding with
    | .nearest => nearestInteger value
    | .down => ⌊value⌋
    | .up => ⌈value⌉
    | .towardZero => if 0 ≤ value then ⌊value⌋ else ⌈value⌉
  sign value :=
    if value < 0 then
      .negative
    else if value = 0 then
      .zero
    else
      .positive

section Loading

variable
    {Value : Type}
    {numerics : Numerics Value}

/--
What a cell holds that is filled with one content only, or held it before.
-/
theorem load_of_agree
    {entries : List (String × Content Value)}
    {name : String}
    {content : Content Value}
    (agree : ∀ other, (name, other) ∈ entries → other = content)
    {memory : String → Content Value}
    (known : (name, content) ∈ entries ∨ memory name = content) :
    load memory entries name = content := by
  induction entries generalizing memory with
  | nil =>
      exact known.resolve_left List.not_mem_nil
  | cons entry rest inductionHypothesis =>
      refine inductionHypothesis
        (fun other member => agree other (List.mem_cons_of_mem entry member)) ?_
      dsimp only
      by_cases same : name = entry.1
      · right
        rw [same, Function.update_self]
        exact agree entry.2 (by rw [same]; exact List.mem_cons_self)
      · rw [Function.update_of_ne same]
        refine known.imp_left fun member => ?_
        rcases List.mem_cons.mp member with rfl | later
        · exact absurd rfl same
        · exact later

theorem load_append
    (memory : String → Content Value)
    (first second : List (String × Content Value)) :
    load memory (first ++ second) = load (load memory first) second :=
  List.foldl_append

/-- What a line fills is a cell that it declares, and not that of a variable. -/
theorem declares_of_loaded?
    {line : Line}
    {name : String}
    {content : Content Value}
    (fills : loaded? numerics line = some (name, content)) :
    ∃ declaration, line = .declare declaration ∧
      (∀ owner, declaration.cell ≠ .variable owner) ∧
      declaration.cell.name = name ∧
      initialContent? numerics declaration.storage = some content := by
  cases line with
  | declare declaration =>
      obtain ⟨cell, storage⟩ := declaration
      cases cell with
      | «variable» owner =>
          cases fills
      | _ =>
          obtain ⟨initial, holds, same⟩ := Option.map_eq_some_iff.mp fills
          obtain ⟨rfl, rfl⟩ := Prod.mk.inj same
          exact ⟨_, rfl, fun owner => nofun, rfl, holds⟩
  | _ =>
      cases fills

end Loading

/-- The sign of a difference tells whether a relation fails. -/
theorem satisfy_sign_sub
    (byZero left right : ℚ)
    (relation : Relation) :
    Flags.satisfy
        (.ofSign ((Numerics.exact byZero).sign
          ((Numerics.exact byZero).combine .subtract left right)))
        (Compile.failsUnsigned relation) =
      !relation.holds left right := by
  change Flags.satisfy
    (.ofSign ((Numerics.exact byZero).sign (left - right))) _ = _
  rcases lt_trichotomy left right with less | rfl | greater
  · have sign : (Numerics.exact byZero).sign (left - right) = .negative :=
      if_pos (sub_neg.mpr less)
    rw [sign]
    cases relation <;>
      simp [Compile.failsUnsigned, Flags.satisfy, Flags.ofSign, Sign.carry,
        Sign.zeroFlag, Relation.holds, less, less.le, less.ne]
  · have sign : (Numerics.exact byZero).sign (left - left) = .zero := by
      rw [sub_self]
      rfl
    rw [sign]
    cases relation <;>
      simp [Compile.failsUnsigned, Flags.satisfy, Flags.ofSign, Sign.carry,
        Sign.zeroFlag, Relation.holds]
  · have sign : (Numerics.exact byZero).sign (left - right) = .positive := by
      have positive := sub_pos.mpr greater
      exact (if_neg positive.not_gt).trans (if_neg positive.ne')
    rw [sign]
    cases relation <;>
      simp [Compile.failsUnsigned, Flags.satisfy, Flags.ofSign, Sign.carry,
        Sign.zeroFlag, Relation.holds, greater, greater.le, greater.ne']

theorem realizes_exact (byZero : ℚ) :
    Compile.Realizes (.exact byZero) .down (.exact byZero) where
  room := ⟨rfl, rfl⟩
  ofRat _ := rfl
  arithmetic _ _ _ := rfl
  modulo _ _ := rfl
  comparison := by
    intro relation left right
    rw [satisfy_sign_sub]
    change _ = if relation.holds left right then (1 : ℚ) else 0
    cases relation.holds left right <;> rfl
  truth := by
    intro value
    rcases lt_trichotomy value 0 with less | same | greater
    · simp [Meaning.exact, Numerics.exact, less, less.ne, Sign.zeroFlag]
    · simp [Meaning.exact, Numerics.exact, same, Sign.zeroFlag]
    · simp [Meaning.exact, Numerics.exact, greater.ne', greater.not_gt,
        Sign.zeroFlag]

end Machine

namespace Compile

variable
    {Value : Type}
    {numerics : Numerics Value}

/-- A fragment declares no number for cells twice. -/
theorem Allotted.eq_of_number?
    {before after : Counters}
    {data : List Declaration}
    {code : List Line}
    (allotted : Allotted before after data code)
    {first second : Declaration}
    {number : Nat}
    (firstMember : first ∈ data)
    (secondMember : second ∈ data)
    (firstNumber : first.cell.number? = some number)
    (secondNumber : second.cell.number? = some number) :
    first = second := by
  have distinct : (data.filterMap (·.cell.number?)).Nodup := by
    rw [allotted.cells.2]
    exact List.nodup_range'
  have apart := List.pairwise_filterMap.mp distinct
  have symmetric :
      Std.Symm fun one other : Declaration =>
        ∀ oneNumber, one.cell.number? = some oneNumber →
          ∀ otherNumber,
            other.cell.number? = some otherNumber → oneNumber ≠ otherNumber :=
    ⟨fun _ _ differ _ isFirst _ isSecond => (differ _ isSecond _ isFirst).symm⟩
  by_contra different
  exact apart.forall firstMember secondMember different number firstNumber
    number secondNumber rfl

/-- Loading a fragment gives its literals their values. -/
theorem Allotted.load_literal
    {before after : Counters}
    {data : List Declaration}
    {code : List Line}
    (allotted : Allotted before after data code)
    {number : Nat}
    {initial : String}
    (member : declareLiteral number initial ∈ data)
    (memory : String → Content Value) :
    load memory ((data.map .declare).filterMap (loaded? numerics))
      (Cell.literal number).name =
      .real (numerics.ofRat (Decimal.textValue initial.toList)) := by
  refine load_of_agree ?_ (.inl ?_)
  · intro other filled
    obtain ⟨line, lineMember, fills⟩ := List.mem_filterMap.mp filled
    obtain ⟨declaration, declared, rfl⟩ := List.mem_map.mp lineMember
    obtain ⟨_, same, -, sameName, holds⟩ := declares_of_loaded? fills
    obtain rfl := Line.declare.inj same
    have sameCell : declaration.cell = .literal number :=
      Cell.eq_of_generated (allotted.generated declared) trivial sameName
    obtain rfl :=
      allotted.eq_of_number? declared member (by rw [sameCell]; rfl) rfl
    exact (Option.some.inj holds).symm
  · refine List.mem_filterMap.mpr ⟨_, List.mem_map_of_mem member, rfl⟩

end Compile

namespace Program

section Simulation

variable
    {Value : Type}
    {numerics : Numerics Value}
    {rounding : Rounding}
    {meaning : Meaning Value}
    (program : Program)
    {options : Compile.Options}

/--
In front of its fragment a listing declares variables and cells with a
reserved name.
-/
theorem data_listing
    (options : Compile.Options) :
    ∃ before,
      (program.listing options).data =
        before ++ (program.fragment options).data.map .declare ∧
      ∀ declaration, .declare declaration ∈ before →
        (∃ owner, declaration.cell = .variable owner) ∨
          isReserved declaration.cell.name = true := by
  let symbols : List Line :=
    program.symbols.symbols.map fun symbol =>
      .declare (Compile.declareSymbol symbol)
  let fixed : List Line :=
    (Compile.scratchDeclarations ++
      Compile.controlDeclarations options.modulo).map .declare
  refine ⟨Compile.dataHeader ++ symbols ++ [.blank] ++ fixed, ?_, ?_⟩
  · rw [List.append_assoc _ fixed, ← List.map_append]
    rfl
  · intro declaration member
    have inFixed :
        ∀ declared ∈
          Compile.scratchDeclarations ++
            Compile.controlDeclarations options.modulo,
          isReserved declared.cell.name = true := by
      cases options.modulo <;> decide
    simp only [List.mem_append, Compile.dataHeader, symbols, fixed,
      List.mem_map, List.mem_cons, List.not_mem_nil, reduceCtorEq, or_false,
      false_or, Line.declare.injEq] at member
    rcases member with ⟨symbol, -, rfl⟩ | ⟨declared, inside, rfl⟩
    · exact .inl ⟨_, rfl⟩
    · exact .inr (inFixed declared (List.mem_append.mpr inside))

/-- Loading the data section gives no variable another value. -/
theorem holds_startOf
    (cells : String → Value)
    (core : Core Value) :
    (startOf numerics (program.listing options) cells core).core.Holds
      cells := by
  intro name free
  refine load_of_agree ?_ (.inr rfl)
  intro other filled
  obtain ⟨line, lineMember, fills⟩ := List.mem_filterMap.mp filled
  obtain ⟨declaration, rfl, notVariable, rfl, -⟩ := declares_of_loaded? fills
  obtain ⟨before, shape, known⟩ := program.data_listing options
  rw [shape] at lineMember
  have reserved : isReserved declaration.cell.name = true := by
    rcases List.mem_append.mp lineMember with inFront | inFragment
    · rcases known declaration inFront with ⟨owner, isVariable⟩ | reserved
      · exact absurd isVariable (notVariable owner)
      · exact reserved
    · obtain ⟨_, declared, same⟩ := List.mem_map.mp inFragment
      obtain rfl := Line.declare.inj same
      exact Cell.isReserved_name
        ((program.allotted_code options).generated declared)
  rw [reserved] at free
  cases free

/--
The code of a program enacts its statement from the first line to the
call that ends it.
-/
theorem enacts_code
    {moves : State Value → State Value → Prop}
    {below : List Value → Prop}
    (conduct :
      Compile.Conduct moves numerics (program.listing options).code options
        rounding meaning below)
    (free :
      ∀ tag ∈ (program.tree.map Node.tag).identifiers,
        isReserved (Symbol.storedName tag) = false) :
    ∃ exit, (program.listing options).code[exit]? = some exitLine ∧
      Enacts moves meaning
        (Compile.PreparedAbove numerics options rounding below
          (program.fragment options).data)
        (Compile.statementOf program.tree) 0 exit := by
  let fragment := program.fragment options
  let farewell : List Line :=
    [.blank, .comment "End of program", .directive "mov ax,4c00h"]
  have shape :
      (program.listing options).code =
        Compile.codeHeader ++ (fragment.code ++
          (farewell ++ [.directive "int 21h", .directive "End"])) :=
    List.append_assoc _ _ _
  have placed :
      Placed (program.listing options).code 0
        (Compile.codeHeader ++ (fragment.code ++
          (farewell ++ [.directive "int 21h", .directive "End"]))) := by
    rw [← shape]
    exact List.prefix_refl _
  obtain ⟨headerPlaced, placed⟩ := placed.split
  obtain ⟨bodyPlaced, placed⟩ := placed.split
  obtain ⟨farewellPlaced, exitPlaced⟩ := placed.split
  have enacts :=
    Compile.enacts_statement conduct
      (fun name member => free name (Stmt.names_ofTree _ member))
      (List.Subset.refl _) bodyPlaced
  exact ⟨_, exitPlaced.head,
    (enacts.enter
      (conduct.follows.traverses headerPlaced rfl (fun _ => rfl))).leave
      (conduct.follows.traverses farewellPlaced rfl (fun _ => rfl))⟩

/--
The code of a program simulates its statement from the first line to the
call that ends it.
-/
theorem simulates_code
    (options : Compile.Options)
    (isBoolean : options.comparison = .boolean)
    (realizes : Compile.Realizes numerics rounding meaning)
    (free :
      ∀ tag ∈ (program.tree.map Node.tag).identifiers,
        isReserved (Symbol.storedName tag) = false) :
    ∃ exit, (program.listing options).code[exit]? = some exitLine ∧
      Simulates numerics (program.listing options).code meaning
        (Compile.Prepared numerics options rounding
          · (program.fragment options).data ·)
        (Compile.statementOf program.tree) 0 exit := by
  have conduct :=
    Compile.conduct_stepMove (program.nested_code options).nodup_labels
      isBoolean realizes
  obtain ⟨exit, exitAt, enacts⟩ := program.enacts_code conduct free
  rw [Compile.preparedAbove_nil] at enacts
  exact ⟨exit, exitAt, .of_enacts enacts⟩

/-- The machine starts with the stack empty and all values in their cells. -/
theorem prepared_start
    (numerics : Numerics Value)
    (options : Compile.Options)
    (cells : String → Value)
    (core : Core Value) :
    Compile.Prepared numerics options
      (Compile.quotientRounding core.control options.modulo) cells
      (program.fragment options).data
      (startOf numerics (program.listing options) cells core).core where
  empty := rfl
  rounds := rfl
  userCells := program.holds_startOf cells core
  literals := by
    intro number initial member
    obtain ⟨before, shape, -⟩ := program.data_listing options
    rw [startOf, shape, List.filterMap_append, load_append]
    exact (program.allotted_code options).load_literal member _

/--
Where quotients are rounded down, whatever the control word is, the
machine starts so.
-/
theorem prepared_startOf
    (numerics : Numerics Value)
    (options : Compile.Options)
    (isFloor : options.modulo = .floor)
    (cells : String → Value)
    (core : Core Value) :
    Compile.Prepared numerics options .down cells
      (program.fragment options).data
      (startOf numerics (program.listing options) cells core).core := by
  have prepared := program.prepared_start numerics options cells core
  rw [isFloor] at prepared
  exact prepared

/--
Where the tree comes to its end, so does the machine, with the same
values in the variables.
-/
theorem exits_of_runs
    (options : Compile.Options)
    (isBoolean : options.comparison = .boolean)
    (isFloor : options.modulo = .floor)
    (realizes : Compile.Realizes numerics .down meaning)
    (free :
      ∀ tag ∈ (program.tree.map Node.tag).identifiers,
        isReserved (Symbol.storedName tag) = false)
    {cells after : String → Value}
    (runs : Tree.Runs meaning (program.tree.map Node.tag) cells after)
    (core : Core Value) :
    ∃ final,
      Reaches numerics (program.listing options).code
        (startOf numerics (program.listing options) cells core) final ∧
      AtExit (program.listing options).code final ∧ final.core.Holds after := by
  obtain ⟨exit, exitAt, simulates⟩ :=
    program.simulates_code options isBoolean realizes free
  have prepared := program.prepared_startOf numerics options isFloor cells core
  obtain ⟨final, reaches, atExit, finalPrepared⟩ :=
    simulates.halts exitAt prepared (Stmt.runs_ofTree.mpr runs)
  exact ⟨final, reaches, atExit, finalPrepared.userCells⟩

end Simulation

/--
Compiled programs mean what their trees mean, for exact numbers and for trees
whose variables have no reserved name: where the tree comes to its end the
machine comes to the end of the program with the same values in the variables,
and it stops nowhere else.
-/
theorem meaning_preserved
    (program : Program)
    (free :
      ∀ tag ∈ (program.tree.map Node.tag).identifiers,
        isReserved (Symbol.storedName tag) = false)
    (byZero : ℚ)
    (cells : String → ℚ)
    (core : Core ℚ) :
    let listing :=
      program.listing
        { comparison := .boolean, modulo := .floor, literals := .real }
    let start := startOf (.exact byZero) listing cells core
    (∀ after,
      Tree.Runs (.exact byZero) (program.tree.map Node.tag) cells after →
      ∃ final, Reaches (.exact byZero) listing.code start final ∧
        AtExit listing.code final ∧ final.core.Holds after) ∧
    (∀ final, Reaches (.exact byZero) listing.code start final →
      step (.exact byZero) listing.code final = none →
        AtExit listing.code final ∧
          ∃ after,
            Tree.Runs (.exact byZero) (program.tree.map Node.tag) cells after ∧
            final.core.Holds after) := by
  intro listing start
  obtain ⟨exit, exitAt, simulates⟩ :=
    program.simulates_code
      { comparison := .boolean, modulo := .floor, literals := .real } rfl
      (realizes_exact byZero) free
  have prepared :=
    program.prepared_startOf (.exact byZero)
      { comparison := .boolean, modulo := .floor, literals := .real } rfl cells
      core
  constructor
  · intro after runs
    obtain ⟨final, reaches, atExit, finalPrepared⟩ :=
      simulates.halts exitAt prepared (Stmt.runs_ofTree.mpr runs)
    exact ⟨final, reaches, atExit, finalPrepared.userCells⟩
  · intro final reaches stopped
    obtain ⟨atExit, after, runs, finalPrepared⟩ :=
      simulates.of_stopped exitAt prepared reaches stopped
    exact ⟨atExit, after, Stmt.runs_ofTree.mp runs, finalPrepared.userCells⟩

/-- A literal of digits only has their value. -/
theorem literalValue_of_whole
    {lexeme : String}
    {number : Nat}
    (reads : literalValue lexeme = Decimal.Numeral.value ⟨false, number, 0⟩) :
    literalValue lexeme = number := by
  rw [reads]
  norm_num [Decimal.Numeral.value, Decimal.signed]

theorem literalValue_two : literalValue "2" = 2 :=
  literalValue_of_whole rfl

/-- The tree of `parity` takes `n` from five to one. -/
theorem runs_parity :
    Tree.Runs (.exact 0) (parity.tree.map Node.tag) (fun _ => 5)
      (Function.update (fun _ => 5) "n" 1) := by
  have name : Symbol.storedName "n" = "n" := by
    decide
  have comparison : Kind.ofTag ">=" = .comparison .greaterOrEqual := by
    decide
  have modulo : Kind.ofTag "%" = .modulo := by
    decide
  have isVariable : Kind.ofTag "n" = .identifier := by
    decide
  have isLiteral : Kind.ofTag "2" = .literal := by
    decide
  have condition :
      ∀ cells : String → ℚ,
        Tree.value (.exact 0) cells (.node ">=" (.leaf "n") (.leaf "2")) =
          if cells "n" ≥ 2 then 1 else 0 := by
    intro cells
    simp [Tree.value, Tree.leaf, comparison, isVariable, isLiteral, name,
      literalValue_two, Meaning.exact, Relation.holds]
  have remainder :
      Tree.value (.exact 0) (fun _ => 5) (.node "%" (.leaf "n") (.leaf "2")) =
        1 := by
    simp only [Tree.value, Tree.leaf, modulo, isVariable, isLiteral,
      literalValue_two, Meaning.exact, Arithmetic.exact]
    norm_num
  have shape :
      parity.tree.map Node.tag =
        .node "while"
          (.node ">=" (.leaf "n") (.leaf "2"))
          (.node "=" (.leaf "n") (.node "%" (.leaf "n") (.leaf "2"))) := by
    decide
  have assigns :
      Tree.Runs (.exact 0)
        (.node "=" (.leaf "n") (.node "%" (.leaf "n") (.leaf "2")))
        (fun _ => 5) (Function.update (fun _ => 5) "n" 1) := by
    rw [← remainder]
    exact .assignment (by decide) (by decide)
  rw [shape]
  refine .loopPass (by decide) ?_ assigns (.loopEnd (by decide) ?_)
  · rw [condition]
    norm_num [Meaning.exact]
  · rw [condition, Function.update_self]
    norm_num [Meaning.exact]

theorem meaning_preserved_parity :
    let listing := parity.listing {}
    let core :=
      ⟨[], fun _ => .word 0, 0x037F, 0, 0, ⟨false, false, false, false⟩⟩
    (parity.tree.map Node.tag).identifiers = ["n", "n", "n"] ∧
      ∃ final,
        Reaches (.exact 0) listing.code
          (startOf (.exact 0) listing (fun _ => 5) core) final ∧
          AtExit listing.code final ∧ final.core.memory "n" = .real 1 := by
  intro listing core
  obtain ⟨final, reaches, atExit, holds⟩ :=
    (meaning_preserved parity (by decide) 0 (fun _ => 5) core).1 _ runs_parity
  exact ⟨by decide, final, reaches, atExit, holds "n" (by decide)⟩

end Program

end Coprocessor
