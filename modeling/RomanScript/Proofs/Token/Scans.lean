import RomanScript.Proofs.Token.Words

/-!
# Scanning step by step

A scan passes over blanks and takes one word after another, each at the place that the characters
before it lead to, until the text ends or no piece of it is known.
-/

namespace RomanScript.Token

/-- The place behind some characters: a line feed ends a line, and columns count from the last line
feed. -/
def Place.after (before : List Char) : Place :=
  ⟨1 + before.count '\n', (before.reverse.takeWhile (· != '\n')).length⟩

@[simp]
theorem Place.after_nil : after [] = start :=
  rfl

theorem Place.after_concat (before : List Char) (char : Char) :
    after (before ++ [char]) = (after before).behind char := by
  by_cases endsLine : char = '\n'
  · simp [after, behind, endsLine, Nat.add_assoc]
  · simp [after, behind, endsLine]

theorem Place.foldl_behind (before chars : List Char) :
    chars.foldl behind (after before) = after (before ++ chars) := by
  induction chars generalizing before with
  | nil => rw [List.foldl_nil, List.append_nil]
  | cons char rest inductionHypothesis =>
      rw [List.foldl_cons, ← after_concat, inductionHypothesis, List.append_assoc,
        List.singleton_append]

inductive Stands (table : Keyword.Table) (first : Char) (rest : List Char) : Piece → Prop
  | blank : isBlank first = true → Stands table first rest .blank
  | sign {symbol : Symbol} :
      signSymbol? first = some symbol → Stands table first rest (.word symbol [first])
  | name :
      first.isLower = true →
      Stands table first rest (.word .identifier ((first :: rest).takeWhile Char.isAlphanum))
  | capital {symbol : Symbol} {word : List Char} :
      first.isUpper = true → Capital table (first :: rest) symbol word →
      Stands table first rest (.word symbol word)
  | malformed {run : List Char} :
      (first :: rest).takeWhile Numeral.isNumeralLetter = run → run ≠ [] →
      Stands table first rest (.unknown (.malformedNumeral (String.ofList run)))
  | unexpected : Stands table first rest (.unknown (.unexpectedCharacter first))

variable {table : Keyword.Table} {path : Option String} {first : Char} {rest : List Char}

private theorem stands_numeralPiece
    (isUpper : first.isUpper = true)
    (shorter : ∀ entry, table.longestAt (first :: rest) = some entry →
      entry.spelling.length < ((first :: rest).takeWhile Numeral.isNumeralLetter).length) :
    Stands table first rest
      (numeralPiece first ((first :: rest).takeWhile Numeral.isNumeralLetter)) := by
  unfold numeralPiece
  split
  · exact .unexpected
  · rename_i nonempty
    rw [List.isEmpty_iff] at nonempty
    split
    · rename_i isNumeral
      exact .capital isUpper (.numeral rfl nonempty isNumeral shorter)
    · exact .malformed rfl nonempty

private theorem stands_capitalPiece
    (isUpper : first.isUpper = true) : Stands table first rest (capitalPiece table first rest) := by
  unfold capitalPiece
  dsimp only
  split
  · rename_i entry chosen
    split
    · rename_i atMost
      exact .capital isUpper (.keyword chosen atMost)
    · rename_i longer
      refine stands_numeralPiece isUpper fun other chosen' => ?_
      cases chosen.symm.trans chosen'
      exact Nat.lt_of_not_le longer
  · rename_i missing
    refine stands_numeralPiece isUpper fun other chosen => ?_
    rw [missing] at chosen
    cases chosen

theorem stands_pieceAt (table : Keyword.Table) (first : Char) (rest : List Char) :
    Stands table first rest (pieceAt table first rest) := by
  unfold pieceAt
  split
  · rename_i isBlank
    exact .blank isBlank
  · split
    · rename_i symbol isSign
      exact .sign isSign
    · split
      · rename_i isLower
        exact .name isLower
      · split
        · rename_i isUpper
          exact stands_capitalPiece isUpper
        · exact .unexpected

/-- How a text is scanned from some place on: `before` stands there already, and the characters that
follow give tokens or a diagnostic. -/
inductive Scans (table : Keyword.Table) (path : Option String) :
    List Char → List Char → Except Diagnostic (List Token) → Prop
  | done {before : List Char} :
      Scans table path before [] (.ok [atPlace (.after before) .endOfText ""])
  | blank {before behind : List Char} {char : Char} {outcome : Except Diagnostic (List Token)} :
      isBlank char = true → Scans table path (before ++ [char]) behind outcome →
      Scans table path before (char :: behind) outcome
  | word {before tail behind : List Char} {first : Char} {symbol : Symbol} {tokens : List Token} :
      pieceAt table first (tail ++ behind) = .word symbol (first :: tail) →
      Scans table path (before ++ first :: tail) behind (.ok tokens) →
      Scans table path before (first :: tail ++ behind)
        (.ok (atPlace (.after before) symbol (String.ofList (first :: tail)) :: tokens))
  | failed {before tail behind : List Char} {first : Char} {symbol : Symbol}
      {diagnostic : Diagnostic} :
      pieceAt table first (tail ++ behind) = .word symbol (first :: tail) →
      Scans table path (before ++ first :: tail) behind (.error diagnostic) →
      Scans table path before (first :: tail ++ behind) (.error diagnostic)
  | unknown {before behind : List Char} {first : Char} {problem : Problem} :
      pieceAt table first behind = .unknown problem →
      Scans table path before (first :: behind)
        (.error ⟨problem, (Place.after before).line, (Place.after before).column, path⟩)

variable {table : Keyword.Table} {path : Option String}

/-- Only blanks and words are on the way of a scan that gives tokens. -/
@[elab_as_elim]
theorem Scans.induction_ok
    {motive : (before chars : List Char) → (tokens : List Token) →
      Scans table path before chars (.ok tokens) → Prop}
    (done : ∀ before, motive before [] _ .done)
    (blank : ∀ before char behind tokens (isBlank : isBlank char = true)
      (scans : Scans table path (before ++ [char]) behind (.ok tokens)),
      motive _ _ _ scans → motive before (char :: behind) tokens (.blank isBlank scans))
    (word : ∀ before first tail behind symbol tokens
      (taken : pieceAt table first (tail ++ behind) = .word symbol (first :: tail))
      (scans : Scans table path (before ++ first :: tail) behind (.ok tokens)),
      motive _ _ _ scans → motive before (first :: tail ++ behind) _ (.word taken scans))
    {before chars : List Char} {tokens : List Token}
    (scans : Scans table path before chars (.ok tokens)) : motive before chars tokens scans := by
  suffices general : ∀ {before chars outcome} (scans : Scans table path before chars outcome)
      {tokens} (result : outcome = .ok tokens), motive before chars tokens (result ▸ scans) from
    general scans rfl
  intro before chars outcome scans
  induction scans with
  | done =>
      rintro _ ⟨⟩
      exact done _
  | blank isBlank scans inductionHypothesis =>
      rintro _ rfl
      exact blank _ _ _ _ isBlank scans (inductionHypothesis rfl)
  | word taken scans inductionHypothesis =>
      rintro _ ⟨⟩
      exact word _ _ _ _ _ _ taken scans (inductionHypothesis rfl)
  | failed => rintro _ ⟨⟩
  | unknown => rintro _ ⟨⟩

/-- A blank is passed over. -/
theorem scanFrom_blank
    {char : Char} (blank : isBlank char = true) (before behind : List Char) :
    scanFrom table path 0 (.after before) (char :: behind) =
      scanFrom table path 0 (.after (before ++ [char])) behind := by
  rw [scanFrom, pieceAt, if_pos blank, Place.after_concat]

/-- A word is taken at its place, the rest of it is passed over, and the scan goes on behind it. -/
theorem scanFrom_word
    {first : Char} {tail behind : List Char} {symbol : Symbol} (before : List Char)
    (taken : pieceAt table first (tail ++ behind) = .word symbol (first :: tail)) :
    scanFrom table path 0 (.after before) (first :: tail ++ behind) =
      (scanFrom table path 0 (.after (before ++ first :: tail)) behind).map
        (atPlace (.after before) symbol (String.ofList (first :: tail)) :: ·) := by
  rw [List.cons_append, scanFrom, taken]
  dsimp only
  rw [List.length_cons, Nat.add_sub_cancel, scanFrom_append, ← Place.after_concat,
    Place.foldl_behind, List.append_assoc, List.singleton_append]
  cases scanFrom table path 0 (.after (before ++ first :: tail)) behind <;> rfl

/-- Every scan goes on step by step. -/
theorem scans_scanFrom
    (spelled : table.Spelled) (path : Option String) (before chars : List Char) :
    Scans table path before chars (scanFrom table path 0 (.after before) chars) := by
  induction size : chars.length using Nat.strong_induction_on generalizing before chars with
  | h count inductionHypothesis =>
      cases chars with
      | nil => exact .done
      | cons first rest =>
          rw [List.length_cons] at size
          have stands := stands_pieceAt table first rest
          cases taken : pieceAt table first rest with
          | blank =>
              rw [taken] at stands
              cases stands with
              | blank isBlank =>
                  rw [scanFrom_blank isBlank]
                  exact .blank isBlank
                    (inductionHypothesis rest.length (by omega) (before ++ [first]) rest rfl)
          | word symbol word =>
              obtain ⟨⟨first', tail, rfl, _⟩, behind, isText⟩ := isWord_of_pieceAt spelled taken
              rw [List.cons_append] at isText
              obtain ⟨rfl, rfl⟩ := List.cons.inj isText
              have scans := inductionHypothesis behind.length (by simp at size; omega)
                (before ++ first' :: tail) behind rfl
              rw [← List.cons_append, scanFrom_word before taken]
              generalize scanFrom table path 0 _ behind = outcome at scans
              cases outcome with
              | ok tokens => exact .word taken scans
              | error diagnostic => exact .failed taken scans
          | unknown problem =>
              rw [scanFrom, taken]
              exact .unknown taken

theorem scans_scan (spelled : table.Spelled) (source : String) (path : Option String) :
    Scans table path [] source.toList (scan table source path) :=
  scans_scanFrom spelled path [] source.toList

end RomanScript.Token
