import Coprocessor.SExpr.Reader
import Mathlib

namespace Coprocessor.SExpr

/-!
# Cutting texts into words

A text can be laid out freely: blanks and comments may stand between words, and
they hold no tokens. An atom is written as a bare word, which ends at the first
character that ends a word, or between quotes, which show where it ends. Where a
word ends it is one token.
-/

/-- Blanks and comments, each comment with the line end that closes it. -/
inductive Layout : List Char → Prop where
  | none : Layout []
  | blank
      {character : Char}
      {rest : List Char}
      (isBlank : Text.isBlank character = true)
      (layout : Layout rest) :
      Layout (character :: rest)
  | comment
      {body rest : List Char}
      (oneLine : '\n' ∉ body)
      (layout : Layout rest) :
      Layout (';' :: (body ++ '\n' :: rest))

/-- Layout at the end of a text, where the last comment needs no line end. -/
inductive LastLayout : List Char → Prop where
  | closed
      {text : List Char}
      (layout : Layout text) :
      LastLayout text
  | comment
      {front body : List Char}
      (layout : Layout front)
      (oneLine : '\n' ∉ body) :
      LastLayout (front ++ ';' :: body)

/-- A text at which a word before it ends. -/
def Stops (text : List Char) : Prop :=
  ∀ character ∈ text.head?, ScanState.endsWord character = true

/-- A text that shows its own end: it starts with a parenthesis or a quote. -/
def Delimited (text : List Char) : Prop :=
  text.head? = some '(' ∨ text.head? = some '"'

/-- A text that ends where another one starts. -/
def Ends (text rest : List Char) : Prop :=
  Delimited text ∨ Stops rest

/--
What may stand between quotes for a content: a backslash before a quote
or a backslash makes it ordinary, and before any other character it
stands for itself.
-/
inductive Escaped : List Char → List Char → Prop where
  | nil : Escaped [] []
  | plain
      {character : Char}
      {body content : List Char}
      (ordinary : character ≠ '"' ∧ character ≠ '\\')
      (escaped : Escaped body content) :
      Escaped (character :: body) (character :: content)
  | special
      {character : Char}
      {body content : List Char}
      (isSpecial : character = '"' ∨ character = '\\')
      (escaped : Escaped body content) :
      Escaped ('\\' :: character :: body) (character :: content)
  | kept
      {character : Char}
      {body content : List Char}
      (ordinary : ¬(character = '"' ∨ character = '\\'))
      (escaped : Escaped body content) :
      Escaped ('\\' :: character :: body) ('\\' :: character :: content)

/--
The characters of a content, with a backslash before each quote and backslash.
-/
def escape (content : List Char) : List Char :=
  content.flatMap fun character =>
    if character = '"' ∨ character = '\\' then
      ['\\', character]
    else
      [character]

theorem escaped_escape (content : List Char) :
    Escaped (escape content) content := by
  induction content with
  | nil =>
      exact .nil
  | cons character content inductionHypothesis =>
      rw [escape, List.flatMap_cons]
      split_ifs with isSpecial
      · exact .special isSpecial inductionHypothesis
      · exact .plain (not_or.mp isSpecial) inductionHypothesis

/--
A word that is one token: no character ends it, and it does not start
like a quoted atom.
-/
structure Plain (word : List Char) : Prop where
  nonempty : word ≠ []
  unquoted : word.head? ≠ some '"'
  unbroken : ∀ character ∈ word, ScanState.endsWord character = false

/-- The number of bytes of a text. -/
def byteCount : List Char → Nat
  | [] => 0
  | character :: rest => character.utf8Size + byteCount rest

@[simp] theorem byteCount_nil : byteCount [] = 0 :=
  rfl

@[simp] theorem byteCount_cons (character : Char) (text : List Char) :
    byteCount (character :: text) = character.utf8Size + byteCount text :=
  rfl

@[simp] theorem byteCount_append (first second : List Char) :
    byteCount (first ++ second) = byteCount first + byteCount second := by
  induction first with
  | nil =>
      exact (Nat.zero_add _).symm
  | cons character first inductionHypothesis =>
      rw [List.cons_append, byteCount_cons, inductionHypothesis, byteCount_cons,
        Nat.add_assoc]

/--
Layout ends a word before it, unless it is empty and what follows does not.
-/
theorem Layout.stops
    {layout rest : List Char}
    (isLayout : Layout layout)
    (orElse : layout = [] → Stops rest) :
    Stops (layout ++ rest) := by
  cases isLayout with
  | none =>
      exact orElse rfl
  | blank isBlank =>
      rintro character ⟨⟩
      simp [ScanState.endsWord, isBlank]
  | comment =>
      rintro character ⟨⟩
      decide

/-- What starts a text also starts what is longer. -/
theorem stops_append_iff
    {text : List Char}
    (nonempty : text ≠ [])
    (rest : List Char) :
    Stops (text ++ rest) ↔ Stops text := by
  rw [Stops, Stops, List.head?_append_of_ne_nil text nonempty]

theorem stops_rightParen (rest : List Char) : Stops (')' :: rest) := by
  rintro character ⟨⟩
  decide

namespace ScanState

/-- Between tokens a blank changes nothing. -/
theorem enter_of_isBlank
    {character : Char}
    (offset : Nat)
    (isBlank : Text.isBlank character = true) :
    enter offset character = ([], .between) := by
  have different : ∀ other, Text.isBlank other = false → character ≠ other := by
    rintro other notBlank rfl
    rw [isBlank] at notBlank
    cases notBlank
  rw [enter, if_neg (different '(' (by decide)),
    if_neg (different ')' (by decide)), if_neg (different '"' (by decide)),
    if_neg (different ';' (by decide)), if_pos isBlank]

/-- A character that ends no word starts one, except for a quote. -/
theorem enter_of_plain
    {character : Char}
    (offset : Nat)
    (unquoted : character ≠ '"')
    (unbroken : endsWord character = false) :
    enter offset character = ([], .word offset [character]) := by
  simp only [endsWord, Bool.or_eq_false_iff, beq_eq_false_iff_ne] at unbroken
  obtain ⟨⟨⟨notBlank, notLeft⟩, notRight⟩, notComment⟩ := unbroken
  rw [enter, if_neg notLeft, if_neg notRight, if_neg unquoted,
    if_neg notComment, notBlank]
  rfl

/-- A comment goes on to the end of its line. -/
theorem step_comment
    {character : Char}
    (offset : Nat)
    (different : character ≠ '\n') :
    comment.step offset character = ([], comment) := by
  rw [step, if_neg different]

theorem scan_comment
    {body : List Char}
    (offset : Nat)
    (rest : List Char)
    (oneLine : '\n' ∉ body) :
    comment.scan offset (body ++ '\n' :: rest) =
      between.scan (offset + byteCount (body ++ ['\n'])) rest := by
  induction body generalizing offset with
  | nil =>
      rfl
  | cons character body inductionHypothesis =>
      rw [List.mem_cons, not_or] at oneLine
      rw [List.cons_append, scan, step_comment offset (Ne.symm oneLine.1),
        List.cons_append, byteCount_cons, ← Nat.add_assoc,
        ← inductionHypothesis (offset + character.utf8Size) oneLine.2]
      rfl

/-- Layout holds no tokens. -/
theorem scan_layout
    {layout : List Char}
    (isLayout : Layout layout)
    (offset : Nat)
    (rest : List Char) :
    between.scan offset (layout ++ rest) =
      between.scan (offset + byteCount layout) rest := by
  induction isLayout generalizing offset with
  | none =>
      rfl
  | @blank character layout isBlank _ inductionHypothesis =>
      rw [List.cons_append, scan, step, enter_of_isBlank offset isBlank,
        byteCount_cons, ← Nat.add_assoc]
      exact inductionHypothesis (offset + character.utf8Size)
  | @comment body layout oneLine _ inductionHypothesis =>
      have enters : between.step offset ';' = ([], comment) := rfl
      rw [List.cons_append, List.append_assoc, scan, enters, List.nil_append,
        List.cons_append, scan_comment _ _ oneLine, inductionHypothesis]
      simp only [byteCount_cons, byteCount_append, byteCount_nil, Nat.add_zero,
        Nat.add_assoc]

/-- A word goes on to where the text stops it. -/
theorem scan_word
    {word rest : List Char}
    (start offset : Nat)
    (reversed : List Char)
    (unbroken : ∀ character ∈ word, endsWord character = false)
    (stops : Stops rest) :
    (ScanState.word start reversed).scan offset (word ++ rest) =
      wordToken start (word.reverse ++ reversed) ::
        between.scan (offset + byteCount word) rest := by
  induction word generalizing offset reversed with
  | nil =>
      cases rest with
      | nil =>
          rfl
      | cons character rest =>
          have ends : endsWord character = true := stops character rfl
          rw [List.nil_append, scan, step, if_pos ends]
          rfl
  | cons character word inductionHypothesis =>
      rw [List.forall_mem_cons] at unbroken
      rw [List.cons_append, scan, step, unbroken.1, byteCount_cons,
        ← Nat.add_assoc, List.reverse_cons, List.append_assoc]
      exact inductionHypothesis (offset + character.utf8Size)
        (character :: reversed) unbroken.2

/-- A comment without a line end goes on to the end of the text. -/
theorem scan_openComment
    {body : List Char}
    (offset : Nat)
    (oneLine : '\n' ∉ body) :
    comment.scan offset body = [] := by
  induction body generalizing offset with
  | nil =>
      rfl
  | cons character body inductionHypothesis =>
      rw [List.mem_cons, not_or] at oneLine
      rw [scan, step_comment offset (Ne.symm oneLine.1)]
      exact inductionHypothesis _ oneLine.2

theorem scan_lastLayout
    {layout : List Char}
    (isLayout : LastLayout layout)
    (offset : Nat) :
    between.scan offset layout = [] := by
  cases isLayout with
  | closed isLayout =>
      rw [← List.append_nil layout, scan_layout isLayout]
      rfl
  | comment isLayout oneLine =>
      rw [scan_layout isLayout, scan]
      exact scan_openComment _ oneLine

/-- An escaped content is taken in character by character. -/
theorem scan_quoted
    {body content : List Char}
    (escaped : Escaped body content)
    (start offset : Nat)
    (reversed rest : List Char) :
    (ScanState.quoted start reversed).scan offset (body ++ '"' :: rest) =
      quotedToken start (content.reverse ++ reversed) ::
        between.scan (offset + byteCount (body ++ ['"'])) rest := by
  have opens :
      ∀ offset reversed,
        (ScanState.quoted start reversed).step offset '\\' =
          ([], .escaped start reversed) :=
    fun _ _ => rfl
  induction escaped generalizing offset reversed with
  | nil =>
      rfl
  | @plain character _ _ ordinary _ inductionHypothesis =>
      have takes : (ScanState.quoted start reversed).step offset character =
          ([], .quoted start (character :: reversed)) := by
        rw [step, if_neg ordinary.1, if_neg ordinary.2]
      rw [List.cons_append, scan, takes, inductionHypothesis]
      simp only [List.nil_append, List.reverse_cons, List.append_assoc,
        List.cons_append, byteCount_cons, Nat.add_assoc]
  -- The backslash is dropped in one step, and the character behind it is
  -- kept in the next.
  | @special character _ _ isSpecial _ inductionHypothesis =>
      have takes :
          ∀ after, (ScanState.escaped start reversed).step after character =
            ([], .quoted start (character :: reversed)) :=
        fun _ => if_pos isSpecial
      rw [List.cons_append, List.cons_append, scan, opens, scan, takes,
        inductionHypothesis]
      simp only [List.nil_append, List.reverse_cons, List.append_assoc,
        List.cons_append, byteCount_cons, Nat.add_assoc]
  | @kept character _ _ ordinary _ inductionHypothesis =>
      have takes :
          ∀ after, (ScanState.escaped start reversed).step after character =
            ([], .quoted start (character :: '\\' :: reversed)) :=
        fun _ => if_neg ordinary
      rw [List.cons_append, List.cons_append, scan, opens, scan, takes,
        inductionHypothesis]
      simp only [List.nil_append, List.reverse_cons, List.append_assoc,
        List.cons_append, byteCount_cons, Nat.add_assoc]

end ScanState

/-- An atom as it is written: bare, or between quotes. -/
inductive Word where
  | bare (characters : List Char) (plain : Plain characters)
  | quoted (body content : List Char) (escaped : Escaped body content)

namespace Word

/-- The text of a word. -/
def text : Word → List Char
  | .bare characters _ => characters
  | .quoted body _ _ => '"' :: (body ++ ['"'])

/-- The atom that a word is read as. -/
def atom : Word → Atom
  | .bare characters _ => .ofWord characters
  | .quoted _ content _ => .text (String.ofList content)

/-- A text in quotes, with no more backslashes than it needs. -/
def quote (content : String) : Word :=
  .quoted (escape content.toList) content.toList (escaped_escape _)

@[simp] theorem text_quote (content : String) :
    (quote content).text = Atom.quote content.toList :=
  rfl

@[simp] theorem atom_quote (content : String) :
    (quote content).atom = .text content := by
  rw [quote, atom, String.ofList_toList]

/-- A bare word does not show its own end. -/
theorem not_delimited_of_plain
    {characters : List Char}
    (plain : Plain characters) :
    ¬Delimited characters := by
  rintro (isParen | isQuote)
  · have unbroken := plain.unbroken '(' (List.mem_of_mem_head? isParen)
    revert unbroken
    decide
  · exact plain.unquoted isQuote

/-- A word is one token where it ends. -/
theorem scan_text
    (word : Word)
    (offset : Nat)
    {rest : List Char}
    (ends : Ends word.text rest) :
    ScanState.between.scan offset (word.text ++ rest) =
      ⟨offset, .atom word.atom⟩ ::
        ScanState.between.scan (offset + byteCount word.text) rest := by
  cases word with
  | bare characters plain =>
      have stops : Stops rest :=
        ends.resolve_left (not_delimited_of_plain plain)
      obtain ⟨nonempty, unquoted, unbroken⟩ := plain
      cases characters with
      | nil =>
          exact (nonempty rfl).elim
      | cons first others =>
          rw [List.forall_mem_cons] at unbroken
          have notQuote : first ≠ '"' :=
            fun same => unquoted (congrArg some same)
          rw [text, List.cons_append, ScanState.scan, ScanState.step,
            ScanState.enter_of_plain offset notQuote unbroken.1,
            ScanState.scan_word _ _ _ unbroken.2 stops, ScanState.wordToken,
            List.reverse_append, List.reverse_reverse, byteCount_cons,
            ← Nat.add_assoc]
          rfl
  | quoted body content escaped =>
      have opens :
          ScanState.between.step offset '"' = ([], .quoted offset []) := rfl
      rw [text, List.cons_append, List.append_assoc, ScanState.scan, opens,
        List.cons_append, List.nil_append, ScanState.scan_quoted escaped,
        ScanState.quotedToken, List.append_nil, List.reverse_reverse,
        byteCount_cons, ← Nat.add_assoc]
      rfl

end Word

end Coprocessor.SExpr
