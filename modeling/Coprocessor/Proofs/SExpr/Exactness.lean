import Coprocessor.Proofs.SExpr.Writing

namespace Coprocessor.SExpr

/-!
# Which texts are read as which expressions

A text *spells* an expression if it is a word for an atom, or a row of texts
that spell the items of a list. What reading accepts is exactly a text that
spells the result, with layout around it. For the one direction, what is spelled
is read. For the other, the first token of a text tells how the text starts, and
a list that is open while a text is read to its end is closed somewhere in that
text, behind a row of further items.
-/

/-- A text that spells an expression. -/
inductive Spells : SExpr → List Char → Prop where
  | atom (word : Word) : Spells (.atom word.atom) word.text
  | list
      {items : List SExpr}
      {texts : List (List Char)}
      {text : List Char}
      (spelled : List.Forall₂ Spells items texts)
      (enclosed : Enclosed texts text) :
      Spells (.list items) text

/-- What holds of a list if it holds of its items holds of every expression. -/
theorem induction_items
    {motive : SExpr → Prop}
    (atom : ∀ value, motive (.atom value))
    (list : ∀ items, (∀ item ∈ items, motive item) → motive (.list items)) :
    ∀ expression, motive expression
  | .atom value => atom value
  | .list items => list items fun item _ => induction_items atom list item

/-- What spells an expression reads as it. -/
theorem Spells.reads
    {expression : SExpr}
    {text : List Char}
    (spells : Spells expression text) :
    Reads text expression := by
  induction expression using induction_items generalizing text with
  | atom value =>
      cases spells
      exact Word.reads _
  | list items inductionHypothesis =>
      cases spells with
      | list spelled enclosed =>
          refine reads_enclosed enclosed ?_
          clear enclosed
          induction spelled with
          | nil =>
              exact .nil
          | cons spells _ restReads =>
              rw [List.forall_mem_cons] at inductionHypothesis
              exact .cons (inductionHypothesis.1 spells)
                (restReads inductionHypothesis.2)

/-- How a text starts, by the tokens that it is cut into. -/
inductive Starts (text : List Char) : List Token → Prop where
  | finished (layout : LastLayout text) : Starts text []
  | leftParen
      {front rest : List Char}
      (offset later : Nat)
      (layout : Layout front)
      (shape : text = front ++ '(' :: rest) :
      Starts text (⟨offset, .leftParen⟩ :: ScanState.between.scan later rest)
  | rightParen
      {front rest : List Char}
      (offset later : Nat)
      (layout : Layout front)
      (shape : text = front ++ ')' :: rest) :
      Starts text (⟨offset, .rightParen⟩ :: ScanState.between.scan later rest)
  | word
      {front rest : List Char}
      (offset later : Nat)
      (word : Word)
      (layout : Layout front)
      (ends : Ends word.text rest)
      (shape : text = front ++ (word.text ++ rest)) :
      Starts text
        (⟨offset, .atom word.atom⟩ :: ScanState.between.scan later rest)
  | unterminated (offset : Nat) : Starts text [⟨offset, .unterminated⟩]

theorem Layout.append
    {first second : List Char}
    (layout : Layout first)
    (later : Layout second) :
    Layout (first ++ second) := by
  induction layout with
  | none =>
      exact later
  | blank isBlank _ inductionHypothesis =>
      exact .blank isBlank inductionHypothesis
  | comment oneLine _ inductionHypothesis =>
      rw [List.cons_append, List.append_assoc]
      exact .comment oneLine inductionHypothesis

/-- Layout in front of a text does not change what its first token is. -/
theorem Starts.behind
    {gap text : List Char}
    {tokens : List Token}
    (before : Layout gap)
    (starts : Starts text tokens) :
    Starts (gap ++ text) tokens := by
  cases starts with
  | finished layout =>
      refine .finished ?_
      cases layout with
      | closed layout =>
          exact .closed (before.append layout)
      | comment layout oneLine =>
          rw [← List.append_assoc]
          exact .comment (before.append layout) oneLine
  | leftParen offset later layout shape =>
      refine .leftParen offset later (before.append layout) ?_
      rw [shape, List.append_assoc]
  | rightParen offset later layout shape =>
      refine .rightParen offset later (before.append layout) ?_
      rw [shape, List.append_assoc]
  | word offset later word layout ends shape =>
      refine .word offset later word (before.append layout) ends ?_
      rw [shape, List.append_assoc]
  | unterminated offset =>
      exact .unterminated offset

namespace ScanState

/--
Between quotes a text ends, or a quote closes a content. Behind a backslash the
same holds of the text with the backslash before it.
-/
theorem unterminated_or_escaped (start : Nat) (text : List Char) :
    ((∀ offset reversed,
        (ScanState.quoted start reversed).scan offset text =
          [⟨start, .unterminated⟩]) ∨
      ∃ body content rest, Escaped body content ∧ text = body ++ '"' :: rest) ∧
    ((∀ offset reversed,
        (ScanState.escaped start reversed).scan offset text =
          [⟨start, .unterminated⟩]) ∨
      ∃ body content rest,
        Escaped ('\\' :: body) content ∧ text = body ++ '"' :: rest) := by
  induction text with
  | nil =>
      exact ⟨.inl fun _ _ => rfl, .inl fun _ _ => rfl⟩
  | cons character text inductionHypothesis =>
      obtain ⟨inQuotes, behindBackslash⟩ := inductionHypothesis
      constructor
      · by_cases isQuote : character = '"'
        · subst isQuote
          exact .inr ⟨[], [], text, .nil, rfl⟩
        by_cases isBackslash : character = '\\'
        · subst isBackslash
          rcases behindBackslash with ends | ⟨body, content, rest, escaped, rfl⟩
          · exact .inl fun offset reversed => ends _ reversed
          · exact .inr ⟨_, content, rest, escaped, rfl⟩
        · rcases inQuotes with ends | ⟨body, content, rest, escaped, rfl⟩
          · refine .inl fun offset reversed => ?_
            rw [scan, step, if_neg isQuote, if_neg isBackslash]
            exact ends _ _
          · exact .inr ⟨_, _, rest, .plain ⟨isQuote, isBackslash⟩ escaped, rfl⟩
      · rcases inQuotes with ends | ⟨body, content, rest, escaped, rfl⟩
        · refine .inl fun offset reversed => ?_
          rw [scan, step]
          split_ifs
          · exact ends _ _
          · exact ends _ _
        · by_cases isSpecial : character = '"' ∨ character = '\\'
          · exact .inr ⟨_, _, rest, .special isSpecial escaped, rfl⟩
          · exact .inr ⟨_, _, rest, .kept isSpecial escaped, rfl⟩

/-- A bare word goes on to the first character that ends it. -/
theorem exists_plain
    {character : Char}
    (unquoted : character ≠ '"')
    (unbroken : endsWord character = false)
    (text : List Char) :
    ∃ word rest,
      Plain word ∧ Stops rest ∧ character :: text = word ++ rest := by
  have inside : ∀ other ∈ text.takeWhile (fun next => !endsWord next),
      endsWord other = false := by
    intro other member
    simpa using List.mem_takeWhile_imp member
  refine ⟨character :: text.takeWhile (fun next => !endsWord next),
    text.dropWhile (fun next => !endsWord next), ?_, ?_, ?_⟩
  · exact ⟨List.cons_ne_nil _ _, fun same => unquoted (Option.some.inj same),
      List.forall_mem_cons.mpr ⟨unbroken, inside⟩⟩
  · intro next starts
    have stopped := List.head?_dropWhile_not (fun next => !endsWord next) text
    rw [Option.mem_def.mp starts] at stopped
    simpa using stopped
  · rw [List.cons_append, List.takeWhile_append_dropWhile]

end ScanState

/-- A text that starts with a word starts with the token of the word. -/
theorem starts_word
    (word : Word)
    (offset : Nat)
    {rest : List Char}
    (ends : Ends word.text rest) :
    Starts (word.text ++ rest)
      (ScanState.between.scan offset (word.text ++ rest)) := by
  rw [word.scan_text offset ends]
  exact .word offset _ word .none ends rfl

theorem starts_quote (offset : Nat) (text : List Char) :
    Starts ('"' :: text) (ScanState.between.scan offset ('"' :: text)) := by
  rcases (ScanState.unterminated_or_escaped offset text).1 with
    ends | ⟨body, content, rest, escaped, rfl⟩
  · have same :
        ScanState.between.scan offset ('"' :: text) =
          [⟨offset, .unterminated⟩] :=
      ends _ []
    rw [same]
    exact .unterminated offset
  · have shape :
        '"' :: (body ++ '"' :: rest) =
          (Word.quoted body content escaped).text ++ rest := by
      simp [Word.text]
    rw [shape]
    exact starts_word _ offset (.inl (.inr rfl))

/-- The tokens of a text tell how it starts. -/
theorem starts_scan (offset : Nat) (text : List Char) :
    Starts text (ScanState.between.scan offset text) := by
  -- A comment is passed in one step, so the induction is on how
  -- much text is left.
  induction length : text.length using Nat.strong_induction_on
    generalizing text offset with
  | _ length inductionHypothesis =>
  subst length
  cases text with
  | nil =>
      exact .finished (.closed .none)
  | cons character text =>
      by_cases isLeft : character = '('
      · subst isLeft
        exact .leftParen offset _ .none rfl
      by_cases isRight : character = ')'
      · subst isRight
        exact .rightParen offset _ .none rfl
      by_cases isQuote : character = '"'
      · subst isQuote
        exact starts_quote offset text
      by_cases isComment : character = ';'
      · subst isComment
        by_cases feed : '\n' ∈ text
        · obtain ⟨body, rest, rfl, oneLine⟩ := List.eq_append_cons_of_mem feed
          have layout : Layout (';' :: (body ++ ['\n'])) :=
            .comment oneLine .none
          have shape :
              ';' :: (body ++ '\n' :: rest) =
                ';' :: (body ++ ['\n']) ++ rest := by
            simp
          rw [shape, ScanState.scan_layout layout]
          refine (inductionHypothesis rest.length ?_ _ rest rfl).behind layout
          simp only [List.length_cons, List.length_append]
          omega
        · have layout : LastLayout (';' :: text) := .comment .none feed
          rw [ScanState.scan_lastLayout layout]
          exact .finished layout
      by_cases isBlank : Text.isBlank character = true
      · have layout : Layout [character] := .blank isBlank .none
        rw [← List.singleton_append, ScanState.scan_layout layout]
        exact (inductionHypothesis text.length (by simp) _ text rfl).behind
          layout
      · have unbroken : ScanState.endsWord character = false := by
          simp [ScanState.endsWord, isLeft, isRight, isComment, isBlank]
        obtain ⟨word, rest, plain, stops, shape⟩ :=
          ScanState.exists_plain isQuote unbroken text
        rw [shape]
        exact starts_word (.bare word plain) offset (.inr stops)

theorem Word.text_ne_nil (word : Word) : word.text ≠ [] := by
  cases word with
  | bare characters plain =>
      exact plain.nonempty
  | quoted body content escaped =>
      exact List.cons_ne_nil _ _

/--
The rest of an open list: layout, a row of texts that spell further items, and
what follows the parenthesis that closes the list. Reading goes on there with
the items in place.
-/
structure ClosedBy
    (items : List SExpr)
    (outer : List (List SExpr))
    (text : List Char)
    (result : SExpr)
    (front line rest : List Char)
    (further : List SExpr) :
    Prop where
  layout : Layout front
  shape : text = front ++ (line ++ rest)
  row : ∃ texts, List.Forall₂ Spells further texts ∧ Row texts line
  goesOn : ∃ close later,
    assemble ((further.reverse ++ items) :: outer)
      (⟨close, .rightParen⟩ :: ScanState.between.scan later rest) = .ok result

/--
An item in front of the rest of an open list is one more item of that rest.
-/
theorem ClosedBy.cons
    {items : List SExpr}
    {outer : List (List SExpr)}
    {item result : SExpr}
    {before itemText text front line rest : List Char}
    {further : List SExpr}
    (closed :
      ClosedBy (item :: items) outer text result front line rest further)
    (layout : Layout before)
    (spells : Spells item itemText)
    (ends : Ends itemText text) :
    ClosedBy items outer (before ++ (itemText ++ text)) result before
      (itemText ++ (front ++ line)) rest (item :: further) := by
  obtain ⟨frontLayout, rfl, ⟨texts, spelled, row⟩, close, later, goesOn⟩ :=
    closed
  refine ⟨layout, by simp only [List.append_assoc],
    ⟨_, .cons spells spelled, ?_⟩, close, later, ?_⟩
  · refine .item frontLayout ?_ row
    rintro rfl
    exact ends.imp_right (stops_append_iff row.ne_nil rest).mp
  · rwa [List.reverse_cons, List.append_assoc]

/-- A list that is open while a text is read is closed in that text. -/
theorem exists_closedBy
    {items : List SExpr}
    {outer : List (List SExpr)}
    {offset : Nat}
    {text : List Char}
    {result : SExpr}
    (accepted :
      assemble (items :: outer) (ScanState.between.scan offset text) =
        .ok result) :
    ∃ front line rest further,
      ClosedBy items outer text result front line rest further := by
  induction length : text.length using Nat.strong_induction_on
    generalizing items outer offset text with
  | _ length inductionHypothesis =>
  subst length
  have starts := starts_scan offset text
  generalize ScanState.between.scan offset text = tokens at starts accepted
  cases starts with
  | finished =>
      cases accepted
  | unterminated =>
      cases accepted
  | rightParen close later layout shape =>
      exact ⟨_, [')'], _, [], layout, shape, ⟨[], .nil, .close⟩, close, later,
        accepted⟩
  | @word front rest _ later word layout ends shape =>
      subst shape
      have shorter : rest.length < (front ++ (word.text ++ rest)).length := by
        have positive := List.length_pos_iff.mpr word.text_ne_nil
        simp only [List.length_append]
        omega
      obtain ⟨_, _, _, _, closed⟩ := inductionHypothesis _ shorter accepted rfl
      exact ⟨_, _, _, _, closed.cons layout (.atom word) ends⟩
  -- The inner list is closed first, and then the list that it is an item of.
  | @leftParen front rest _ later layout shape =>
      subst shape
      have shorter : rest.length < (front ++ '(' :: rest).length := by
        simp only [List.length_append, List.length_cons]
        omega
      obtain ⟨innerFront, innerLine, innerRest, inner, innerLayout, rfl,
        ⟨texts, spelled, row⟩, close, later, goesOn⟩ :=
          inductionHypothesis _ shorter accepted rfl
      have next :
          assemble ((.list inner :: items) :: outer)
            (ScanState.between.scan later innerRest) = .ok result := by
        rwa [List.append_nil, assemble, List.reverse_reverse] at goesOn
      have stillShorter :
          innerRest.length <
            (front ++ '(' ::
              (innerFront ++ (innerLine ++ innerRest))).length := by
        simp only [List.length_append, List.length_cons]
        omega
      obtain ⟨_, _, _, _, closed⟩ := inductionHypothesis _ stillShorter next rfl
      have spells : Spells (.list inner) ('(' :: (innerFront ++ innerLine)) :=
        .list spelled (.mk innerLayout row)
      have both := closed.cons layout spells (.inl (.inl rfl))
      rw [List.cons_append, List.append_assoc] at both
      exact ⟨_, _, _, _, both⟩

/-- Only layout follows a complete expression. -/
theorem lastLayout_of_complete
    {expression result : SExpr}
    {offset : Nat}
    {text : List Char}
    (accepted :
      complete expression (ScanState.between.scan offset text) = .ok result) :
    LastLayout text ∧ expression = result := by
  have starts := starts_scan offset text
  generalize ScanState.between.scan offset text = tokens at starts accepted
  cases tokens with
  | cons token rest =>
      cases accepted
  | nil =>
      cases starts with
      | finished layout =>
          exact ⟨layout, Except.ok.inj accepted⟩

theorem LastLayout.stops
    {text : List Char}
    (layout : LastLayout text) :
    Stops text := by
  cases layout with
  | closed layout =>
      rw [← List.append_nil text]
      exact layout.stops fun _ => by rintro character ⟨⟩
  | comment layout _ =>
      refine layout.stops fun _ => ?_
      rintro character ⟨⟩
      decide

/--
A text is read as an expression exactly if it spells that one, with
layout around it.
-/
theorem readChars_eq_ok_iff (text : List Char) (expression : SExpr) :
    readChars text = .ok expression ↔
      ∃ front body back,
        Layout front ∧ Spells expression body ∧ LastLayout back ∧
          text = front ++ (body ++ back) := by
  constructor
  · intro accepted
    have starts := starts_scan 0 text
    rw [readChars, tokens] at accepted
    generalize ScanState.between.scan 0 text = tokens at starts accepted
    cases starts with
    | finished =>
        cases accepted
    | unterminated =>
        cases accepted
    | rightParen =>
        cases accepted
    | word _ _ word layout _ shape =>
        obtain ⟨behind, rfl⟩ := lastLayout_of_complete accepted
        exact ⟨_, _, _, layout, .atom word, behind, shape⟩
    | leftParen _ _ layout shape =>
        obtain ⟨front, line, rest, items, before, rfl, ⟨texts, spelled, row⟩,
          close, later, goesOn⟩ := exists_closedBy accepted
        rw [List.append_nil, assemble, List.reverse_reverse] at goesOn
        obtain ⟨behind, rfl⟩ := lastLayout_of_complete goesOn
        refine ⟨_, _, _, layout, .list spelled (.mk before row), behind, ?_⟩
        rw [shape, List.cons_append, List.append_assoc]
  · rintro ⟨front, body, back, before, spells, behind, rfl⟩
    cases spells with
    | atom word =>
        rw [readChars, tokens, ScanState.scan_layout before,
          word.scan_text _ (.inr behind.stops),
          ScanState.scan_lastLayout behind]
        rfl
    | list spelled enclosed =>
        exact readChars_enclosed before enclosed behind
          (spelled.flip.imp fun _ _ spells => spells.reads)

end Coprocessor.SExpr
