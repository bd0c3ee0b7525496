import Coprocessor.Symbol.Table
import Mathlib

namespace Coprocessor.Symbol

/-!
# Tables as maps

A table that operations have built from the empty one is a map from stored names
to symbols, listed in ascending order of the names. What one operation does is
said once: it changes the symbol of its own name and of no other. All the rest
follows from that, since a table in order is determined by its look-ups.
-/

namespace Table

/--
The symbols ascend strictly by their names, and these are in their stored form.
-/
structure IsOrdered (table : Table) : Prop where
  ascending : table.symbols.Pairwise fun first second =>
    first.name < second.name
  stored : ∀ symbol ∈ table.symbols, storedName symbol.name = symbol.name

end Table

theorem mem_place
    {symbol other : Symbol}
    {symbols : List Symbol}
    (member : other ∈ place symbol symbols) :
    other = symbol ∨ other ∈ symbols := by
  induction symbols with
  | nil =>
      exact .inl (List.mem_singleton.mp member)
  | cons first rest inductionHypothesis =>
      rw [place] at member
      split_ifs at member with smaller same
      · exact List.mem_cons.mp member
      · exact (List.mem_cons.mp member).imp_right (List.mem_cons_of_mem first)
      · rcases List.mem_cons.mp member with rfl | inRest
        · exact .inr List.mem_cons_self
        · exact (inductionHypothesis inRest).imp_right
            (List.mem_cons_of_mem first)

theorem pairwise_place
    (symbol : Symbol)
    {symbols : List Symbol}
    (ascending :
      symbols.Pairwise fun first second => first.name < second.name) :
    (place symbol symbols).Pairwise fun first second =>
      first.name < second.name := by
  induction symbols with
  | nil =>
      exact List.pairwise_singleton _ _
  | cons first rest inductionHypothesis =>
      obtain ⟨firstBefore, restAscending⟩ := List.pairwise_cons.mp ascending
      rw [place]
      split_ifs with smaller same
      · refine List.pairwise_cons.mpr ⟨?_, ascending⟩
        intro other member
        rcases List.mem_cons.mp member with rfl | inRest
        · exact smaller
        · exact smaller.trans (firstBefore other inRest)
      · refine List.pairwise_cons.mpr ⟨?_, restAscending⟩
        intro other member
        rw [same]
        exact firstBefore other member
      · refine List.pairwise_cons.mpr ⟨?_, inductionHypothesis restAscending⟩
        intro other member
        rcases mem_place member with rfl | inRest
        · exact lt_of_le_of_ne (not_lt.mp smaller) (Ne.symm same)
        · exact firstBefore other inRest

namespace Table

/--
A symbol that is found belongs to the table and has the stored form of the name.
-/
theorem mem_of_get?
    {table : Table}
    {name : String}
    {symbol : Symbol}
    (found : table.get? name = some symbol) :
    symbol ∈ table.symbols ∧ symbol.name = storedName name := by
  have sameName := List.find?_some found
  exact ⟨List.mem_of_find?_eq_some found, eq_of_beq sameName⟩

theorem isOrdered_empty : empty.IsOrdered :=
  ⟨List.Pairwise.nil, fun _ member => absurd member List.not_mem_nil⟩

namespace IsOrdered

variable
    {table : Table}
    (ordered : table.IsOrdered)

include ordered

theorem insert (symbol : Symbol) : (table.insert symbol).IsOrdered where
  ascending := pairwise_place _ ordered.ascending
  stored := by
    intro other member
    rcases mem_place member with rfl | inTable
    · exact Text.underscored_underscored symbol.name
    · exact ordered.stored other inTable

theorem setType
    (name : String)
    (type : SymbolType) :
    (table.setType name type).1.IsOrdered := by
  have sameName :
      ∀ symbol : Symbol,
        (if symbol.name = storedName name then
          symbol.withType type
        else
          symbol).name = symbol.name := by
    intro symbol
    split_ifs <;> rfl
  constructor
  · refine List.pairwise_map.mpr (ordered.ascending.imp ?_)
    intro first second before
    rwa [sameName, sameName]
  · intro changed member
    obtain ⟨symbol, inTable, rfl⟩ := List.mem_map.mp member
    rw [sameName]
    exact ordered.stored symbol inTable

theorem erase (name : String) : (table.erase name).1.IsOrdered where
  ascending := ordered.ascending.filter _
  stored symbol member := ordered.stored symbol (List.mem_of_mem_filter member)

/-- No two symbols have one name. -/
theorem eq_of_name
    {first second : Symbol}
    (firstMember : first ∈ table.symbols)
    (secondMember : second ∈ table.symbols)
    (same : first.name = second.name) :
    first = second := by
  have distinct : (table.symbols.map Symbol.name).Nodup :=
    List.pairwise_map.mpr (ordered.ascending.imp fun before => ne_of_lt before)
  exact List.inj_on_of_nodup_map distinct firstMember secondMember same

/--
A look-up finds the symbols of the table, each under the names with
its stored form.
-/
theorem get?_eq_some_iff
    {name : String}
    {symbol : Symbol} :
    table.get? name = some symbol ↔
      symbol ∈ table.symbols ∧ symbol.name = storedName name := by
  constructor
  · exact mem_of_get?
  · rintro ⟨member, sameName⟩
    have found : (table.get? name).isSome := by
      rw [get?, List.find?_isSome]
      exact ⟨symbol, member, beq_iff_eq.mpr sameName⟩
    obtain ⟨other, isOther⟩ := Option.isSome_iff_exists.mp found
    obtain ⟨otherMember, otherName⟩ := mem_of_get? isOther
    rw [isOther,
      ordered.eq_of_name otherMember member (otherName.trans sameName.symm)]

/-- Tables in order with the same look-ups are the same. -/
theorem ext
    {other : Table}
    (otherOrdered : other.IsOrdered)
    (same : ∀ name, table.get? name = other.get? name) :
    table = other := by
  have sameMembers :
      ∀ symbol, symbol ∈ table.symbols ↔ symbol ∈ other.symbols := by
    intro symbol
    constructor
    · intro member
      have found :=
        ordered.get?_eq_some_iff.mpr
          ⟨member, (ordered.stored symbol member).symm⟩
      rw [same] at found
      exact (otherOrdered.get?_eq_some_iff.mp found).1
    · intro member
      have found :=
        otherOrdered.get?_eq_some_iff.mpr
          ⟨member, (otherOrdered.stored symbol member).symm⟩
      rw [← same] at found
      exact (ordered.get?_eq_some_iff.mp found).1
  have distinct :
      ∀ {symbols : List Symbol},
        symbols.Pairwise (fun first second => first.name < second.name) →
          symbols.Nodup :=
    fun ascending =>
      ascending.imp fun before same =>
        ne_of_lt before (congrArg Symbol.name same)
  have permuted : table.symbols.Perm other.symbols :=
    (List.perm_ext_iff_of_nodup (distinct ordered.ascending)
      (distinct otherOrdered.ascending)).mpr sameMembers
  have sameSymbols : table.symbols = other.symbols :=
    permuted.eq_of_pairwise
      (fun _ _ _ _ before after => absurd before (not_lt.mpr after.le))
      ordered.ascending otherOrdered.ascending
  cases table
  cases other
  exact congrArg Table.mk sameSymbols

end IsOrdered

/--
Setting a type changes the type of the symbol of that name and no other symbol.
-/
theorem get?_setType
    (table : Table)
    (name other : String)
    (type : SymbolType) :
    (table.setType name type).1.get? other =
      if storedName name = storedName other then
        (table.get? other).map fun symbol => symbol.withType type
      else
        table.get? other := by
  have sameTest :
      ((fun symbol : Symbol => symbol.name == storedName other) ∘ fun symbol =>
        if symbol.name = storedName name then
          symbol.withType type
        else
          symbol) =
          fun symbol => symbol.name == storedName other := by
    funext symbol
    simp only [Function.comp]
    split_ifs <;> rfl
  have retyped :
      (table.setType name type).1.get? other =
        (table.get? other).map fun symbol =>
          if symbol.name = storedName name then
            symbol.withType type
          else
            symbol := by
    rw [get?, setType, List.find?_map, sameTest, get?]
  rw [retyped]
  cases found : table.get? other with
  | none =>
      simp
  | some symbol =>
      have sameName := (mem_of_get? found).2
      rw [Option.map_some, Option.map_some, sameName]
      simp only [eq_comm (a := storedName other)]
      split_ifs <;> rfl

end Table

/-- A change of a table. -/
inductive Operation where
  | insert (symbol : Symbol)
  | setType (name : String) (type : SymbolType)
  | erase (name : String)
  deriving Repr, DecidableEq

/-- What an operation answers. -/
inductive Answer where
  | done
  | found (isFound : Bool)
  | erased (symbol : Option Symbol)
  deriving Repr, DecidableEq

namespace Operation

/-- The name that an operation is about. -/
def name : Operation → String
  | .insert symbol => symbol.name
  | .setType name _ => name
  | .erase name => name

/-- Whether an operation is about a name, up to blanks. -/
def concerns
    (operation : Operation)
    (name : String) :
    Bool :=
  storedName operation.name == storedName name

theorem concerns_iff
    {operation : Operation}
    {name : String} :
    operation.concerns name ↔ storedName operation.name = storedName name :=
  beq_iff_eq

/-- The type that an operation sets. -/
def typeSet? : Operation → Option SymbolType
  | .setType _ type => some type
  | .insert _ | .erase _ => none

/-- What an operation makes of the symbol of its name. -/
def effect : Operation → Option Symbol → Option Symbol
  | .insert symbol, _ => some { symbol with name := storedName symbol.name }
  | .setType _ type, before => before.map fun symbol => symbol.withType type
  | .erase _, _ => none

end Operation

namespace Table

/-- The table after an operation. -/
def apply
    (table : Table) :
    Operation → Table
  | .insert symbol => table.insert symbol
  | .setType name type => (table.setType name type).1
  | .erase name => (table.erase name).1

/-- The answer of an operation; an insertion gives none. -/
def answer
    (table : Table) :
    Operation → Answer
  | .insert _ => .done
  | .setType name type => .found (table.setType name type).2
  | .erase name => .erased (table.erase name).2

/-- The table that operations build from the empty one. -/
def after (operations : List Operation) : Table :=
  operations.foldl apply .empty

theorem after_concat
    (operations : List Operation)
    (operation : Operation) :
    after (operations ++ [operation]) = (after operations).apply operation :=
  List.foldl_concat ..

/-- An operation changes the symbol of its own name and no other. -/
theorem get?_apply
    (table : Table)
    (operation : Operation)
    (name : String) :
    (table.apply operation).get? name =
      if operation.concerns name then
        operation.effect (table.get? name)
      else
        table.get? name := by
  by_cases same : storedName operation.name = storedName name
  · have sameLookup :
        ∀ table : Table, table.get? name = table.get? operation.name := by
      intro table
      rw [get?, get?, same]
    rw [if_pos (Operation.concerns_iff.mpr same), sameLookup, sameLookup]
    cases operation with
    | insert symbol =>
        exact table.get?_insert_self symbol
    | setType name type =>
        exact (table.get?_setType name name type).trans (if_pos rfl)
    | erase name =>
        exact table.get?_erase_self name
  · rw [if_neg (mt Operation.concerns_iff.mp same)]
    cases operation with
    | insert symbol =>
        exact get?_insert_of_ne same
    | setType other type =>
        exact (table.get?_setType other name type).trans (if_neg same)
    | erase other =>
        exact get?_erase_of_ne same

theorem IsOrdered.apply
    {table : Table}
    (ordered : table.IsOrdered)
    (operation : Operation) :
    (table.apply operation).IsOrdered := by
  cases operation with
  | insert symbol =>
      exact ordered.insert symbol
  | setType name type =>
      exact ordered.setType name type
  | erase name =>
      exact ordered.erase name

theorem isOrdered_after (operations : List Operation) :
    (after operations).IsOrdered := by
  induction operations using List.reverseRecOn with
  | nil =>
      exact isOrdered_empty
  | append_singleton operations operation inductionHypothesis =>
      rw [after_concat]
      exact inductionHypothesis.apply operation

/-- The answer of an operation depends on the symbol of its name only. -/
theorem answer_congr
    {table other : Table}
    {operation : Operation}
    (same : table.get? operation.name = other.get? operation.name) :
    table.answer operation = other.answer operation := by
  cases operation with
  | insert symbol =>
      rfl
  | setType name type =>
      exact congrArg (fun symbol => Answer.found symbol.isSome) same
  | erase name =>
      exact congrArg Answer.erased same

end Table

/-- The type that operations set last for a name. -/
def lastType?
    (operations : List Operation)
    (name : String) :
    Option SymbolType :=
  ((operations.filter fun operation => operation.concerns name).filterMap
    Operation.typeSet?).getLast?

/-- Whether the operations about a name do nothing but set its type. -/
def OnlyRetyped
    (operations : List Operation)
    (name : String) :
    Prop :=
  ∀ operation ∈ operations, operation.concerns name → operation.typeSet?.isSome

/--
The symbol that operations leave for a name: the one inserted last under a name
with the same stored form, if it has not been erased since. Its name is the
stored one, its type the one set last since then, and the rest is as inserted.
-/
def InForce
    (operations : List Operation)
    (name : String)
    (symbol : Symbol) :
    Prop :=
  ∃ (earlier : List Operation) (inserted : Symbol) (since : List Operation),
    operations = earlier ++ .insert inserted :: since ∧
      storedName inserted.name = storedName name ∧
      OnlyRetyped since name ∧
      symbol.name = storedName inserted.name ∧
      symbol.type = (lastType? since name).or inserted.type ∧
      symbol.value = inserted.value ∧
      symbol.length = inserted.length

theorem lastType?_concat_of_not_concerns
    {operation : Operation}
    {name : String}
    (other : ¬ operation.concerns name)
    (operations : List Operation) :
    lastType? (operations ++ [operation]) name = lastType? operations name := by
  simp [lastType?, List.filter_append, other]

theorem lastType?_concat_setType
    {written name : String}
    {type : SymbolType}
    (concerned : (Operation.setType written type).concerns name)
    (operations : List Operation) :
    lastType? (operations ++ [.setType written type]) name = some type := by
  simp [lastType?, List.filter_append, concerned, Operation.typeSet?]

namespace OnlyRetyped

theorem nil (name : String) : OnlyRetyped [] name :=
  fun _ member => absurd member List.not_mem_nil

theorem concat
    {operations : List Operation}
    {operation : Operation}
    {name : String}
    (retyped : OnlyRetyped operations name)
    (last : operation.concerns name → operation.typeSet?.isSome) :
    OnlyRetyped (operations ++ [operation]) name := by
  intro other member
  rcases List.mem_append.mp member with inFront | isLast
  · exact retyped other inFront
  · rw [List.mem_singleton.mp isLast]
    exact last

/--
Operations that do nothing but set the type of a name leave its symbol
with the last type.
-/
theorem get?_foldl
    {operations : List Operation}
    {name : String}
    (retyped : OnlyRetyped operations name)
    (table : Table) :
    (operations.foldl Table.apply table).get? name =
      (table.get? name).map fun symbol =>
        { symbol with type := (lastType? operations name).or symbol.type } := by
  induction operations using List.reverseRecOn with
  | nil =>
      simp [lastType?]
  | append_singleton operations operation inductionHypothesis =>
      have before := inductionHypothesis fun other member =>
        retyped other (List.mem_append_left _ member)
      rw [List.foldl_concat, Table.get?_apply, before]
      by_cases concerned : operation.concerns name
      · have setsType := retyped operation (by simp) concerned
        cases operation with
        | insert symbol =>
            cases setsType
        | erase written =>
            cases setsType
        | setType written type =>
            rw [lastType?_concat_setType concerned, if_pos concerned,
              Operation.effect, Option.map_map]
            rfl
      · rw [lastType?_concat_of_not_concerns concerned, if_neg concerned]

end OnlyRetyped

namespace InForce

/-- An operation about another name leaves a symbol in force. -/
theorem concat_of_not_concerns
    {operations : List Operation}
    {operation : Operation}
    {name : String}
    {symbol : Symbol}
    (inForce : InForce operations name symbol)
    (other : ¬ operation.concerns name) :
    InForce (operations ++ [operation]) name symbol := by
  obtain ⟨earlier, inserted, since, rfl, sameName, retyped, named, typed,
    kept⟩ := inForce
  refine ⟨earlier, inserted, since ++ [operation], by simp, sameName,
    retyped.concat fun concerned => absurd concerned other, named, ?_, kept⟩
  rw [lastType?_concat_of_not_concerns other, typed]

/-- A symbol stays in force when its type is set, with the new type. -/
theorem concat_setType
    {operations : List Operation}
    {written name : String}
    {type : SymbolType}
    {symbol : Symbol}
    (inForce : InForce operations name symbol)
    (concerned : (Operation.setType written type).concerns name) :
    InForce (operations ++ [.setType written type]) name
      (symbol.withType type) := by
  obtain ⟨earlier, inserted, since, rfl, sameName, retyped, named, -, kept⟩ :=
    inForce
  refine ⟨earlier, inserted, since ++ [.setType written type], by simp,
    sameName, retyped.concat fun _ => rfl, named, ?_, kept⟩
  rw [lastType?_concat_setType concerned]
  rfl

end InForce

namespace Table

/-- What is found under a name after operations is in force. -/
theorem inForce_of_get?
    {operations : List Operation}
    {name : String}
    {symbol : Symbol}
    (found : (after operations).get? name = some symbol) :
    InForce operations name symbol := by
  induction operations using List.reverseRecOn generalizing symbol with
  | nil =>
      cases found
  | append_singleton operations operation inductionHypothesis =>
      rw [after_concat, get?_apply] at found
      split_ifs at found with concerned
      · cases operation with
        | insert inserted =>
            obtain rfl := Option.some.inj found
            have sameName := Operation.concerns_iff.mp concerned
            exact ⟨operations, inserted, [], rfl, sameName, .nil name, rfl, rfl,
              rfl, rfl⟩
        | setType written type =>
            obtain ⟨before, foundBefore, rfl⟩ := Option.map_eq_some_iff.mp found
            exact (inductionHypothesis foundBefore).concat_setType concerned
        | erase written =>
            cases found
      · exact (inductionHypothesis found).concat_of_not_concerns concerned

/-- A look-up after operations finds exactly the symbol in force. -/
theorem get?_after_eq_some_iff
    {operations : List Operation}
    {name : String}
    {symbol : Symbol} :
    (after operations).get? name = some symbol ↔
      InForce operations name symbol := by
  constructor
  · exact inForce_of_get?
  · rintro ⟨earlier, inserted, since, rfl, sameName, retyped, named, typed,
      valued, measured⟩
    have insertion : (Operation.insert inserted).concerns name :=
      Operation.concerns_iff.mpr sameName
    rw [after, List.foldl_append, List.foldl_cons, retyped.get?_foldl,
      get?_apply, if_pos insertion, Operation.effect, Option.map_some, ← named,
      ← typed, ← valued, ← measured]

/-- Operations on different stored names may change places. -/
theorem apply_comm
    {table : Table}
    (ordered : table.IsOrdered)
    {first second : Operation}
    (different : storedName first.name ≠ storedName second.name) :
    (table.apply first).apply second = (table.apply second).apply first := by
  refine ((ordered.apply first).apply second).ext
    ((ordered.apply second).apply first) ?_
  intro name
  have notBoth : ¬ (first.concerns name ∧ second.concerns name) := fun both =>
    different
      ((Operation.concerns_iff.mp both.1).trans
        (Operation.concerns_iff.mp both.2).symm)
  simp only [get?_apply]
  split_ifs with secondConcerned firstConcerned
  · exact absurd ⟨firstConcerned, secondConcerned⟩ notBoth
  · rfl
  · rfl
  · rfl

/--
The table after operations is a map on stored names: it lists its symbols in
ascending order, finds under a name the symbol in force, does not tell names
with the same stored form apart, and no operation touches another stored name.
-/
structure IsMap (operations : List Operation) : Prop where
  keyed :
    ∀ symbol ∈ (after operations).symbols,
      storedName symbol.name = symbol.name ∧
        (after operations).get? symbol.name = some symbol
  ascending :
    (after operations).symbols.Pairwise fun first second =>
      first.name < second.name
  listed :
    (after operations).symbols.length = (after operations).size ∧
      ∀ symbol, symbol ∈ (after operations).symbols ↔
        ∃ name, (after operations).get? name = some symbol
  alike :
    ∀ name other, storedName name = storedName other →
      (after operations).get? name = (after operations).get? other ∧
        (after operations).contains name = (after operations).contains other ∧
        (∀ type,
          (after operations).setType name type =
            (after operations).setType other type) ∧
        (after operations).erase name = (after operations).erase other
  found :
    ∀ name symbol,
      (after operations).get? name = some symbol ↔
        InForce operations name symbol
  /--
  Setting a type tells whether a symbol is in force, and erasing hands it back.
  -/
  answered :
    ∀ name,
      (∀ type,
        ((after operations).setType name type).2 = true ↔
          ∃ symbol, InForce operations name symbol) ∧
        ∀ symbol,
          ((after operations).erase name).2 = some symbol ↔
            InForce operations name symbol
  untouched :
    ∀ (operation : Operation) (name : String),
      storedName operation.name ≠ storedName name →
      ((after operations).apply operation).get? name =
        (after operations).get? name
  commuting :
    ∀ first second : Operation, storedName first.name ≠ storedName second.name →
      ((after operations).apply first).apply second =
          ((after operations).apply second).apply first ∧
        ((after operations).apply first).answer second =
          (after operations).answer second ∧
        ((after operations).apply second).answer first =
          (after operations).answer first

/-- The table after any operations is a map on stored names, in order. -/
theorem isMap_after (operations : List Operation) : IsMap operations := by
  have ordered := isOrdered_after operations
  have untouched :
      ∀ (operation : Operation) (name : String),
        storedName operation.name ≠ storedName name →
        ((after operations).apply operation).get? name =
          (after operations).get? name := by
    intro operation name different
    rw [get?_apply, if_neg (mt Operation.concerns_iff.mp different)]
  refine ⟨?_, ordered.ascending, ⟨rfl, ?_⟩, ?_, ?_, ?_, untouched, ?_⟩
  · intro symbol member
    have stored := ordered.stored symbol member
    exact ⟨stored, ordered.get?_eq_some_iff.mpr ⟨member, stored.symm⟩⟩
  · intro symbol
    constructor
    · intro member
      exact ⟨symbol.name,
        ordered.get?_eq_some_iff.mpr
          ⟨member, (ordered.stored symbol member).symm⟩⟩
    · rintro ⟨name, found⟩
      exact (mem_of_get? found).1
  · intro name other same
    simp only [contains, get?, setType, erase, same, and_self, implies_true]
  · intro name symbol
    exact get?_after_eq_some_iff
  · intro name
    refine ⟨fun type => ?_, fun symbol => get?_after_eq_some_iff⟩
    rw [setType, contains, Option.isSome_iff_exists]
    simp only [get?_after_eq_some_iff]
  · intro first second different
    exact ⟨apply_comm ordered different,
      answer_congr (untouched first second.name different),
      answer_congr (untouched second first.name different.symm)⟩

end Table

end Coprocessor.Symbol
