import Coprocessor.Proofs.Program.Words
import Coprocessor.Proofs.Tree.Literals
import Coprocessor.Proofs.Tree.Unfolding

namespace Coprocessor

open Decimal
open SExpr (Word)

/-!
# Identifiers

An identifier is a word that is neither a sign nor a literal. Most identifiers
keep their text when a program is read. The exceptions are those that read as
doubles: a finite double would make a literal, but the names of the infinities
and of no number, in any letter case, and numerals beyond the overflow bound
are identifiers that are read as doubles and take the canonical names `inf`,
`-inf` and `NaN`. So distinct identifiers become one variable exactly if they
read as the same double.
-/

/-- A text without blanks has none to replace. -/
theorem Text.underscored_of_no_blank
    {text : String}
    (noBlank : ∀ character ∈ text.toList, isBlank character = false) :
    underscored text = text := by
  have kept : ∀ character ∈ text.toList,
      (if isBlank character then '_' else character) = id character := by
    intro character member
    rw [noBlank character member]
    rfl
  rw [underscored, List.map_congr_left kept, List.map_id, String.ofList_toList]

namespace Decimal

/-- The words that spell a double which is not finite. -/
inductive NonFinite : List Char → Binary64 → Prop where
  | infinity
      (sign : NumeralSign)
      {name : List Char}
      (named : String.ofList (name.map Char.toLower) ∈ ["inf", "infinity"]) :
      NonFinite (sign.text ++ name) (.infinite sign.isMinus)
  | notANumber
      (sign : NumeralSign)
      {name : List Char}
      (named : String.ofList (name.map Char.toLower) = "nan") :
      NonFinite (sign.text ++ name) .notANumber
  | overflow
      (spelling : Spelling)
      (beyond : 2 ^ 1024 - 2 ^ 970 ≤ |spelling.value|) :
      NonFinite spelling.text (.infinite spelling.sign.isMinus)

/-- The name of a double does not start with a sign. -/
theorem unsigned_of_named
    {name : List Char}
    (named : String.ofList (name.map Char.toLower) ∈ namedDoubles) :
    Unsigned name := by
  intro first starts
  obtain ⟨-, letters⟩ := letters_of_mem_namedDoubles named
  rw [String.toList_ofList, List.forall_mem_map] at letters
  have letter :=
    Text.isLetter_of_toLower (letters first (List.mem_of_mem_head? starts))
  exact ⟨Text.ne_of_isLetter letter (by decide),
    Text.ne_of_isLetter letter (by decide)⟩

theorem Spelling.isFinite_numeral_iff (spelling : Spelling) :
    spelling.numeral.isFinite = false ↔
      2 ^ 1024 - 2 ^ 970 ≤ |spelling.value| := by
  rw [← Bool.not_eq_true, Numeral.isFinite_iff, not_lt, spelling.value_numeral]
  rfl

namespace NonFinite

variable {word : List Char} {double : Binary64}

/-- What spells a double that is not finite is read as that double. -/
theorem read?_eq (spells : NonFinite word double) :
    Binary64.read? word = some double ∧ double.isFinite = false := by
  cases spells with
  | infinity sign named =>
      have unsigned := unsigned_of_named (List.mem_append_left ["nan"] named)
      simp only [List.mem_cons, List.not_mem_nil, or_false] at named
      rw [Binary64.read?, sign.takeSign_append unsigned]
      dsimp only
      rw [if_pos named]
      exact ⟨rfl, rfl⟩
  | notANumber sign named =>
      have unsigned :=
        unsigned_of_named
          (List.mem_append_right ["inf", "infinity"]
            (List.mem_singleton.mpr named))
      rw [Binary64.read?, sign.takeSign_append unsigned]
      dsimp only
      rw [named]
      exact ⟨rfl, rfl⟩
  | overflow spelling beyond =>
      rw [Binary64.read?_text,
        Binary64.ofNumeral_of_not_isFinite
          (spelling.isFinite_numeral_iff.mpr beyond)]
      exact ⟨rfl, rfl⟩

theorem of_read?
    (reads : Binary64.read? word = some double)
    (beyond : double.isFinite = false) :
    NonFinite word double := by
  obtain ⟨sign, shape, isMinus⟩ := exists_sign word
  rw [Binary64.read?] at reads
  dsimp only at reads
  split_ifs at reads with isInfinity isNaN
  · have spells :
        NonFinite (sign.text ++ (takeSign word).2) (.infinite sign.isMinus) :=
      .infinity sign (by simpa using isInfinity)
    rwa [shape, isMinus, Option.some.inj reads] at spells
  · have spells : NonFinite (sign.text ++ (takeSign word).2) .notANumber :=
      .notANumber sign isNaN
    rwa [shape, Option.some.inj reads] at spells
  · obtain ⟨numeral, readsNumeral, rfl⟩ := Option.map_eq_some_iff.mp reads
    obtain ⟨spelling, rfl, rfl⟩ := exists_spelling readsNumeral
    have notFinite : spelling.numeral.isFinite = false := by
      rw [← Bool.not_eq_true, ← Binary64.isFinite_ofNumeral_iff, beyond]
      decide
    rw [Binary64.ofNumeral_of_not_isFinite notFinite]
    exact .overflow spelling (spelling.isFinite_numeral_iff.mp notFinite)

/-- A word spells at most one double. -/
theorem unique
    {other : Binary64}
    (spells : NonFinite word double)
    (spellsOther : NonFinite word other) :
    double = other := by
  have same := spells.read?_eq.1
  rw [spellsOther.read?_eq.1] at same
  exact (Option.some.inj same).symm

theorem cases_double (spells : NonFinite word double) :
    double = .infinite false ∨ double = .infinite true ∨
      double = .notANumber := by
  have beyond := spells.read?_eq.2
  cases double with
  | finite =>
      cases beyond
  | infinite negative =>
      cases negative with
      | false =>
          exact .inl rfl
      | true =>
          exact .inr (.inl rfl)
  | notANumber =>
      exact .inr (.inr rfl)

/-- A double that is not finite is spelled by its own canonical name. -/
theorem render (spells : NonFinite word double) :
    NonFinite double.render.toList double := by
  apply of_read? _ spells.read?_eq.2
  rcases spells.cases_double with rfl | rfl | rfl <;> decide

theorem render_unaliased (spells : NonFinite word double) :
    double.render ≠ "seq" ∧ double.render ≠ "body" := by
  rcases spells.cases_double with rfl | rfl | rfl <;> decide

theorem render_noBlank (spells : NonFinite word double) :
    ∀ character ∈ double.render.toList, Text.isBlank character = false := by
  have all :
      double.render.toList.all (fun character => !Text.isBlank character) =
        true := by
    rcases spells.cases_double with rfl | rfl | rfl <;> decide
  intro character member
  rw [← Bool.not_eq_true']
  exact List.all_eq_true.mp all character member

end NonFinite

end Decimal

/-- A bare word that stands for a variable. -/
structure IsIdentifier (word : List Char) : Prop where
  plain : SExpr.Plain word
  kind : Kind.ofTag (String.ofList word) = .identifier
  /-- The words for sequences and bodies are not tags themselves. -/
  unaliased : String.ofList word ≠ "seq" ∧ String.ofList word ≠ "body"

instance SExpr.decidablePlain (word : List Char) : Decidable (Plain word) :=
  decidable_of_iff
    (word ≠ [] ∧ word.head? ≠ some '"' ∧
      word.all (fun character => !ScanState.endsWord character) = true)
    ⟨fun ⟨nonempty, unquoted, unbroken⟩ =>
      ⟨nonempty, unquoted, by simpa using unbroken⟩,
      fun ⟨nonempty, unquoted, unbroken⟩ =>
        ⟨nonempty, unquoted, by simpa using unbroken⟩⟩

instance IsIdentifier.decidable (word : List Char) :
    Decidable (IsIdentifier word) :=
  decidable_of_iff
    (SExpr.Plain word ∧ Kind.ofTag (String.ofList word) = .identifier ∧
      String.ofList word ≠ "seq" ∧ String.ofList word ≠ "body")
    ⟨fun ⟨plain, kind, unaliased⟩ => ⟨plain, kind, unaliased⟩,
      fun ⟨plain, kind, unaliased⟩ => ⟨plain, kind, unaliased⟩⟩

theorem SExpr.Plain.noBlank
    {word : List Char}
    (plain : Plain word) :
    ∀ character ∈ word, Text.isBlank character = false := by
  intro character member
  have unbroken := plain.unbroken character member
  simp only [ScanState.endsWord, Bool.or_eq_false_iff] at unbroken
  exact unbroken.1.1.1

namespace IsIdentifier

variable {word : List Char} (identifier : IsIdentifier word)

include identifier

theorem trimChars_eq :
    Text.trimChars (String.ofList word).toList = word := by
  rw [String.toList_ofList, Text.trimChars_of_no_blank identifier.plain.noBlank]

theorem readInteger?_eq : readInteger? word = none := by
  cases reads : readInteger? word with
  | none =>
      rfl
  | some integer =>
      rw [← identifier.trimChars_eq] at reads
      exact (not_isLiteral_of_kind identifier.kind
        (isLiteral_of_readInteger? reads)).elim

/-- An identifier that is read as a double is read as one that is not finite. -/
theorem nonFinite_of_read?
    {double : Binary64}
    (reads : Binary64.read? word = some double) :
    NonFinite word double := by
  apply NonFinite.of_read? reads
  rw [← Bool.not_eq_true]
  intro finite
  rw [← identifier.trimChars_eq] at reads
  exact not_isLiteral_of_kind identifier.kind
    (isLiteral_iff_double.mpr ⟨double, reads, finite⟩)

/--
An identifier that spells a double gets the canonical name of the
double as its tag.
-/
theorem tag_of_nonFinite
    {double : Binary64}
    (spells : NonFinite word double) :
    (Word.bare word identifier.plain).tag = double.render := by
  rw [Word.tag, Word.atom, Atom.ofWord, Atom.number?,
    identifier.readInteger?_eq, spells.read?_eq.1]
  exact Program.aliased_of_unaliased spells.render_unaliased

theorem tag_of_kept (kept : ∀ double, ¬NonFinite word double) :
    (Word.bare word identifier.plain).tag = String.ofList word := by
  have notDouble : Binary64.read? word = none := by
    cases reads : Binary64.read? word with
    | none =>
        rfl
    | some double =>
        exact (kept double (identifier.nonFinite_of_read? reads)).elim
  rw [Word.tag, Word.atom, Atom.ofWord, Atom.number?,
    identifier.readInteger?_eq, notDouble]
  exact Program.aliased_of_unaliased identifier.unaliased

/-- The tag spells the double that the identifier spells, if it spells any. -/
theorem nonFinite_tag_iff (double : Binary64) :
    NonFinite (Word.bare word identifier.plain).tag.toList double ↔
      NonFinite word double := by
  by_cases spelled : ∃ other, NonFinite word other
  · obtain ⟨other, spells⟩ := spelled
    rw [identifier.tag_of_nonFinite spells]
    constructor
    · intro spellsRendered
      exact spells.render.unique spellsRendered ▸ spells
    · intro spellsWord
      exact spells.unique spellsWord ▸ spells.render
  · rw [identifier.tag_of_kept (not_exists.mp spelled), String.toList_ofList]

/--
Two identifiers get one tag only if they are one word or spell one double.
-/
theorem tag_eq_iff
    {other : List Char}
    (otherIdentifier : IsIdentifier other) :
    (Word.bare word identifier.plain).tag =
      (Word.bare other otherIdentifier.plain).tag ↔
      word = other ∨
        ∃ double, NonFinite word double ∧ NonFinite other double := by
  constructor
  · intro same
    have alike : ∀ double, NonFinite word double ↔ NonFinite other double := by
      intro double
      rw [← identifier.nonFinite_tag_iff, same,
        otherIdentifier.nonFinite_tag_iff]
    -- The tag itself tells whether the word spelled a double, so both
    -- words do or neither.
    by_cases spelled : ∃ double, NonFinite word double
    · obtain ⟨double, spells⟩ := spelled
      exact .inr ⟨double, spells, (alike double).mp spells⟩
    · have kept := not_exists.mp spelled
      have otherKept :=
        fun double spells => kept double ((alike double).mpr spells)
      rw [identifier.tag_of_kept kept,
        otherIdentifier.tag_of_kept otherKept] at same
      exact .inl (String.ofList_injective same)
  · rintro (rfl | ⟨double, spells, spellsOther⟩)
    · rfl
    · rw [identifier.tag_of_nonFinite spells,
        otherIdentifier.tag_of_nonFinite spellsOther]

/-- A variable is stored under its tag. -/
theorem storedName_tag :
    Symbol.storedName (Word.bare word identifier.plain).tag =
      (Word.bare word identifier.plain).tag := by
  apply Text.underscored_of_no_blank
  by_cases spelled : ∃ double, NonFinite word double
  · obtain ⟨double, spells⟩ := spelled
    rw [identifier.tag_of_nonFinite spells]
    exact spells.render_noBlank
  · rw [identifier.tag_of_kept (not_exists.mp spelled), String.toList_ofList]
    exact identifier.plain.noBlank

end IsIdentifier

namespace Program

/--
How the identifiers of a tree of words appear in the program that is read.
-/
structure NamesVariables
    (tree : Tree Word)
    (program : Program) :
    Prop where
  /-- An identifier that spells no double keeps its text. -/
  kept : ∀ path word (identifier : IsIdentifier word),
    tree.labelAt? path = some (.bare word identifier.plain) →
      (∀ double, ¬NonFinite word double) →
        (program.tree.labelAt? path).map Node.tag = some (String.ofList word)
  /-- One that spells a double takes the canonical name of that double. -/
  renamed : ∀ path word (identifier : IsIdentifier word) double,
    tree.labelAt? path = some (.bare word identifier.plain) →
      NonFinite word double →
        (program.tree.labelAt? path).map Node.tag = some double.render
  /--
  Two identifiers are one variable only if they are one word or
  spell one double.
  -/
  merged : ∀ path word (identifier : IsIdentifier word) otherPath other
      (otherIdentifier : IsIdentifier other),
    tree.labelAt? path = some (.bare word identifier.plain) →
      tree.labelAt? otherPath = some (.bare other otherIdentifier.plain) →
        ((program.tree.labelAt? path).map
          (fun node => Symbol.storedName node.tag) =
            (program.tree.labelAt? otherPath).map
              (fun node => Symbol.storedName node.tag) ↔
          word = other ∨
            ∃ double, NonFinite word double ∧ NonFinite other double)

/--
Exactly the texts that are programs of words are accepted, in whatever layout.
The identifiers of such a program keep their texts and stay apart, except for
those that spell a double.
-/
theorem identifiers_read (source : String) :
    ((∃ program, read source = .ok program) ↔
      ∃ tree, Worded tree source.toList) ∧
      ∀ tree, Worded tree source.toList →
        ∃ program, read source = .ok program ∧ NamesVariables tree program := by
  refine ⟨exists_read_iff_exists_worded source, fun tree worded => ?_⟩
  obtain ⟨program, accepted, tags⟩ := worded.exists_read
  have tagAt : ∀ path word, tree.labelAt? path = some word →
      (program.tree.labelAt? path).map Node.tag = some word.tag := by
    intro path word found
    rw [← Tree.labelAt?_map, tags, Tree.labelAt?_map, found]
    rfl
  have storedAt : ∀ path word (identifier : IsIdentifier word),
      tree.labelAt? path = some (.bare word identifier.plain) →
        (program.tree.labelAt? path).map
          (fun node => Symbol.storedName node.tag) =
          some (Word.bare word identifier.plain).tag := by
    intro path word identifier found
    have tag := congrArg (Option.map Symbol.storedName) (tagAt path _ found)
    rwa [Option.map_map, Option.map_some, identifier.storedName_tag] at tag
  refine ⟨program, accepted, ?_, ?_, ?_⟩
  · intro path word identifier found kept
    rw [tagAt path _ found, identifier.tag_of_kept kept]
  · intro path word identifier double found spells
    rw [tagAt path _ found, identifier.tag_of_nonFinite spells]
  · intro path word identifier otherPath other otherIdentifier found otherFound
    rw [storedAt path word identifier found,
      storedAt otherPath other otherIdentifier otherFound, Option.some_inj,
      identifier.tag_eq_iff otherIdentifier]

/-- An assignment whose right side is a numeral beyond the overflow bound. -/
def beyondBound : String :=
  "(program (= x -1e400))"

/-- The words of that assignment. -/
def beyondBoundTree : Tree Word :=
  .node (.bare "=".toList (by decide)) (.leaf (.bare "x".toList (by decide)))
    (.leaf (.bare "-1e400".toList (by decide)))

theorem identifiers_read_beyondBound :
    Worded beyondBoundTree beyondBound.toList ∧ IsIdentifier "x".toList ∧
      IsIdentifier "-1e400".toList ∧
      ∃ program, read beyondBound = .ok program ∧
        NamesVariables beyondBoundTree program ∧
        (program.tree.labelAt? [.right]).map Node.tag = some "-inf" := by
  have space : SExpr.Separator [' '] := ⟨.blank rfl .none, by decide⟩
  have tree : Tree.Worded beyondBoundTree "(= x -1e400)".toList :=
    .binary (.atom _) (.atom _) (.mk .none (space.row (space.row (.last _))))
  have notDeclared :
      ∀ text ∈ ["(= x -1e400)".toList],
        ¬Tree.LooksDeclared beyondBoundTree text := by
    rintro _ - ⟨-, word, ⟨⟩, isDeclarations⟩
    revert isDeclarations
    decide
  have worded : Worded beyondBoundTree beyondBound.toList :=
    @Worded.undeclared _ (.bare "program".toList (by decide)) _ _ _ _
      (by decide)
      (.present tree) notDeclared (.mk .none (space.row (.last _))) .none
      (.closed .none)
  have identifier : IsIdentifier "-1e400".toList := by
    decide +kernel
  have spells : NonFinite "-1e400".toList (.infinite true) :=
    NonFinite.of_read? (by decide +kernel) rfl
  obtain ⟨program, accepted, names⟩ := (identifiers_read beyondBound).2 _ worded
  exact ⟨worded, by decide +kernel, identifier, program, accepted, names,
    names.renamed [.right] _ identifier _ rfl spells⟩

/-- Two identifiers that are read as one variable. -/
theorem infinity_read_as_inf :
    IsIdentifier "infinity".toList ∧ IsIdentifier "inf".toList ∧
      (read "(program (= infinity inf))").toOption.map (fun program =>
        program.tree.map Node.tag) =
          some (.node "=" (.leaf "inf") (.leaf "inf")) := by
  decide +kernel

end Program

end Coprocessor
