import RomanScript.Proofs.Token.Scans

/-!
# Tokens and the text they come from

Nothing of a text is lost when it is scanned: it consists of the texts of its tokens with blanks
between them. Every token tells the place at which its text stands.
-/

namespace RomanScript.Token

/-- On an earlier line, or further to the left on the same line. -/
def Place.Precedes (left right : Place) : Prop :=
  left.line < right.line ∨ left.line = right.line ∧ left.column < right.column

private theorem Place.Precedes.trans
    {first second third : Place} (left : first.Precedes second) (right : second.Precedes third) :
    first.Precedes third := by
  unfold Precedes at left right ⊢
  omega

private theorem Place.precedes_behind (place : Place) (char : Char) :
    place.Precedes (place.behind char) := by
  unfold behind
  split
  · exact .inl (Nat.lt_succ_self _)
  · exact .inr ⟨rfl, Nat.lt_succ_self _⟩

private theorem Place.precedes_after_append
    (before : List Char) {chars : List Char} (nonempty : chars ≠ []) :
    (after before).Precedes (after (before ++ chars)) := by
  induction chars using List.reverseRecOn with
  | nil => exact absurd rfl nonempty
  | append_singleton chars last inductionHypothesis =>
      rw [← List.append_assoc, after_concat]
      by_cases empty : chars = []
      · rw [empty, List.append_nil]
        exact precedes_behind _ last
      · exact (inductionHypothesis empty).trans (precedes_behind _ last)

def StandsAt (token : Token) (place : Place) : Prop :=
  token.line = place.line ∧ token.column = place.column

def Precedes (left right : Token) : Prop :=
  left.line < right.line ∨ left.line = right.line ∧ left.column < right.column

private theorem standsAt_atPlace (place : Place) (symbol : Symbol) (text : String) :
    (atPlace place symbol text).StandsAt place :=
  ⟨rfl, rfl⟩

private theorem StandsAt.precedes
    {left right : Token} {place place' : Place} (stands : left.StandsAt place)
    (stands' : right.StandsAt place') (precedes : place.Precedes place') :
    left.Precedes right := by
  obtain ⟨line, column⟩ := stands
  obtain ⟨line', column'⟩ := stands'
  rw [Precedes, line, column, line', column']
  unfold Place.Precedes at precedes
  omega

/-- A token with the characters between the token before it and itself. -/
structure Cell where
  gap : List Char
  token : Token

def Cell.chars (cell : Cell) : List Char :=
  cell.gap ++ cell.token.text.toList

/-- A text consists of its tokens, each behind a gap of blanks and at the place that it tells; the
last one stands at the end and nowhere else is one like it. -/
structure Layout (source : String) (tokens : List Token) (cells : List Cell) : Prop where
  cells_tokens : cells.map Cell.token = tokens
  cells_chars : cells.flatMap Cell.chars = source.toList
  blank : ∀ cell ∈ cells, ∀ char ∈ cell.gap, isBlank char = true
  placed : ∀ earlier cell later, cells = earlier ++ cell :: later →
    cell.token.StandsAt (.after (earlier.flatMap Cell.chars ++ cell.gap))
  increasing : tokens.Pairwise Precedes
  ended : ∃ words finish, tokens = words ++ [finish] ∧
    finish.symbol = .endOfText ∧ finish.text = "" ∧ finish.StandsAt (.after source.toList) ∧
      ∀ word ∈ words, word.symbol ≠ .endOfText

variable {table : Keyword.Table} {path : Option String} {before chars : List Char}
    {tokens : List Token}

/-- Cells that follow `before` have gaps of blanks, and their tokens stand at their places. -/
def LaidBehind : List Char → List Cell → Prop
  | _, [] => True
  | before, cell :: rest =>
    (∀ char ∈ cell.gap, isBlank char = true) ∧
      cell.token.StandsAt (.after (before ++ cell.gap)) ∧ LaidBehind (before ++ cell.chars) rest

private theorem LaidBehind.blank
    {cells : List Cell} (laid : LaidBehind before cells) :
    ∀ cell ∈ cells, ∀ char ∈ cell.gap, isBlank char = true := by
  induction cells generalizing before with
  | nil => exact List.forall_mem_nil _
  | cons cell rest inductionHypothesis =>
      obtain ⟨blanks, _, others⟩ := laid
      exact List.forall_mem_cons.mpr ⟨blanks, inductionHypothesis others⟩

private theorem LaidBehind.placed
    {earlier later : List Cell} {cell : Cell}
    (laid : LaidBehind before (earlier ++ cell :: later)) :
    cell.token.StandsAt (.after (before ++ (earlier.flatMap Cell.chars ++ cell.gap))) := by
  induction earlier generalizing before with
  | nil => exact laid.2.1
  | cons first rest inductionHypothesis =>
      have placed := inductionHypothesis laid.2.2
      rwa [List.append_assoc, ← List.append_assoc first.chars] at placed

/-- The cells of a text that is scanned to tokens: a blank goes into the gap of the first one. -/
theorem Scans.exists_cells
    (scans : Scans table path before chars (.ok tokens)) :
    ∃ cell rest, (cell :: rest).map Cell.token = tokens ∧
      (cell :: rest).flatMap Cell.chars = chars ∧ LaidBehind before (cell :: rest) := by
  induction scans using Scans.induction_ok with
  | done before =>
      refine ⟨⟨[], _⟩, [], rfl, rfl, List.forall_mem_nil _, ?_, trivial⟩
      rw [List.append_nil]
      exact standsAt_atPlace _ _ _
  | blank before char behind tokens isBlank _ inductionHypothesis =>
      obtain ⟨⟨gap, token⟩, rest, areTokens, areChars, blanks, stands, laid⟩ :=
        inductionHypothesis
      refine ⟨⟨char :: gap, token⟩, rest, areTokens, congrArg (char :: ·) areChars,
        List.forall_mem_cons.mpr ⟨isBlank, blanks⟩, ?_, ?_⟩
      · rwa [List.append_assoc, List.singleton_append] at stands
      · rwa [List.append_assoc] at laid
  | word before first tail behind symbol tokens _ _ inductionHypothesis =>
      obtain ⟨cell, rest, areTokens, areChars, laid⟩ := inductionHypothesis
      refine ⟨⟨[], atPlace (.after before) symbol (String.ofList (first :: tail))⟩, cell :: rest,
        congrArg (_ :: ·) areTokens, ?_, List.forall_mem_nil _, ?_, ?_⟩
      · rw [List.flatMap_cons, areChars]
        simp [Cell.chars, atPlace]
      · rw [List.append_nil]
        exact standsAt_atPlace _ _ _
      · simpa [Cell.chars, atPlace] using laid

/-- Every token stands behind some of the characters that are scanned. -/
theorem Scans.stands_of_mem
    (scans : Scans table path before chars (.ok tokens)) :
    ∀ token ∈ tokens, ∃ initial, initial <+: chars ∧
      token.StandsAt (.after (before ++ initial)) := by
  induction scans using Scans.induction_ok with
  | done before =>
      refine List.forall_mem_singleton.mpr ⟨[], List.nil_prefix, ?_⟩
      rw [List.append_nil]
      exact standsAt_atPlace _ _ _
  | blank before char behind tokens _ _ inductionHypothesis =>
      intro token member
      obtain ⟨initial, begins, stands⟩ := inductionHypothesis token member
      refine ⟨char :: initial, (List.prefix_cons_inj char).mpr begins, ?_⟩
      rwa [List.append_assoc, List.singleton_append] at stands
  | word before first tail behind symbol tokens _ _ inductionHypothesis =>
      refine List.forall_mem_cons.mpr ⟨⟨[], List.nil_prefix, ?_⟩, fun token member => ?_⟩
      · rw [List.append_nil]
        exact standsAt_atPlace _ _ _
      · obtain ⟨initial, begins, stands⟩ := inductionHypothesis token member
        refine ⟨first :: tail ++ initial, (List.prefix_append_right_inj _).mpr begins, ?_⟩
        rwa [List.append_assoc] at stands

private theorem Scans.increasing
    (scans : Scans table path before chars (.ok tokens)) : tokens.Pairwise Precedes := by
  induction scans using Scans.induction_ok with
  | done => exact List.pairwise_singleton _ _
  | blank _ _ _ _ _ _ inductionHypothesis => exact inductionHypothesis
  | word before first tail behind symbol tokens _ scans inductionHypothesis =>
      refine List.pairwise_cons.mpr ⟨fun token member => ?_, inductionHypothesis⟩
      obtain ⟨initial, _, stands⟩ := scans.stands_of_mem token member
      refine (standsAt_atPlace _ _ _).precedes stands ?_
      rw [List.append_assoc]
      exact Place.precedes_after_append before (List.cons_ne_nil _ _)

private theorem signSymbol?_ne_endOfText
    {char : Char} {symbol : Symbol} (isSign : signSymbol? char = some symbol) :
    symbol ≠ .endOfText := by
  rintro rfl
  unfold signSymbol? at isSign
  split at isSign <;> cases isSign

/-- No word passes for the end of the text. -/
theorem Stands.ne_endOfText
    {first : Char} {rest word : List Char} {symbol : Symbol}
    (stands : Stands table first rest (.word symbol word)) : symbol ≠ .endOfText := by
  cases stands with
  | sign isSign => exact signSymbol?_ne_endOfText isSign
  | name => exact Symbol.noConfusion
  | capital _ capital => cases capital <;> exact Symbol.noConfusion

private theorem Scans.exists_words
    (scans : Scans table path before chars (.ok tokens)) :
    ∃ words, tokens = words ++ [atPlace (.after (before ++ chars)) .endOfText ""] ∧
      ∀ word ∈ words, word.symbol ≠ .endOfText := by
  induction scans using Scans.induction_ok with
  | done => exact ⟨[], by rw [List.append_nil, List.nil_append], List.forall_mem_nil _⟩
  | blank _ _ _ _ _ _ inductionHypothesis =>
      obtain ⟨words, isEnded, others⟩ := inductionHypothesis
      rw [List.append_assoc, List.singleton_append] at isEnded
      exact ⟨words, isEnded, others⟩
  | word before first tail behind symbol tokens taken _ inductionHypothesis =>
      obtain ⟨words, isEnded, others⟩ := inductionHypothesis
      have notEnd := (taken ▸ stands_pieceAt table first (tail ++ behind)).ne_endOfText
      rw [List.append_assoc] at isEnded
      exact ⟨_ :: words, congrArg (_ :: ·) isEnded, List.forall_mem_cons.mpr ⟨notEnd, others⟩⟩

/-- With any table that is loaded, a text that is scanned to tokens consists of these tokens and of
blanks between them. -/
theorem exists_layout_of_scan
    {origin : Keyword.Source} (loaded : origin.load = .ok table) {source : String}
    (scanned : scan table source path = .ok tokens) :
    ∃ cells, Layout source tokens cells := by
  have scans := scans_scan (Keyword.spelled_of_load loaded) source path
  rw [scanned] at scans
  obtain ⟨cell, rest, areTokens, areChars, laid⟩ := scans.exists_cells
  obtain ⟨words, isEnded, others⟩ := scans.exists_words
  refine ⟨cell :: rest, areTokens, areChars, laid.blank, ?_, scans.increasing, ?_⟩
  · intro earlier next later split
    rw [split] at laid
    exact laid.placed
  · exact ⟨words, _, isEnded, rfl, rfl, standsAt_atPlace _ _ _, others⟩

theorem exists_layout_of_scan_twoLines :
    Keyword.Source.usual.load = .ok .usual ∧
      scan .usual "As x=\r\n\tXIV " none =
        .ok [⟨.keyword .declare, "As", 1, 0⟩, ⟨.identifier, "x", 1, 3⟩, ⟨.equals, "=", 1, 4⟩,
          ⟨.numeral, "XIV", 2, 1⟩, ⟨.endOfText, "", 2, 5⟩] ∧
        ∃ cells, Layout "As x=\r\n\tXIV "
          [⟨.keyword .declare, "As", 1, 0⟩, ⟨.identifier, "x", 1, 3⟩, ⟨.equals, "=", 1, 4⟩,
            ⟨.numeral, "XIV", 2, 1⟩, ⟨.endOfText, "", 2, 5⟩] cells := by
  have loaded : Keyword.Source.usual.load = .ok .usual := rfl
  have scanned : scan .usual "As x=\r\n\tXIV " none =
      .ok [⟨.keyword .declare, "As", 1, 0⟩, ⟨.identifier, "x", 1, 3⟩, ⟨.equals, "=", 1, 4⟩,
        ⟨.numeral, "XIV", 2, 1⟩, ⟨.endOfText, "", 2, 5⟩] := by decide +kernel
  exact ⟨loaded, scanned, exists_layout_of_scan loaded scanned⟩

end RomanScript.Token
