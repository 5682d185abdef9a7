import Mathlib.Data.List.Basic
import RomanScript.Proofs.Token.Scans

/-!
# Where a scan stops

A scan that fails has taken everything before the place of its diagnostic, and all of that is a text
of its own. At that place begins no word: there stands a run of numeral letters that is no numeral
although it is longer than any keyword there, or else a character that begins nothing.
-/

namespace RomanScript

/-- No spelling ends in a numeral letter, so that none is run together with a numeral behind it. -/
def Keyword.Table.EndsApart (table : Table) : Prop :=
  ∀ entry ∈ table.entries, entry.spelling.toList.getLast?.any Numeral.isNumeralLetter = false

/-- No usual spelling does. -/
theorem Keyword.endsApart_usual : Table.usual.EndsApart := by
  have all : Table.usual.entries.all (fun entry =>
      !entry.spelling.toList.getLast?.any Numeral.isNumeralLetter) = true := by
    decide
  intro entry member
  simpa using List.all_eq_true.mp all entry member

namespace Token

variable {table : Keyword.Table} {path : Option String}

/-- No run of numeral letters crosses the line between `before` and `behind`. -/
def RunEnds (before behind : List Char) : Prop :=
  before.getLast?.any Numeral.isNumeralLetter = false ∨
    behind.head?.any Numeral.isNumeralLetter = false

/-- A word that holds all characters of a kind that there are stops before one of another kind. -/
theorem head?_of_takeWhile
    {holds : Char → Bool} {word behind : List Char}
    (whole : (word ++ behind).takeWhile holds = word) : behind.head?.any holds = false := by
  have all : ∀ char ∈ word, holds char = true := by
    intro char member
    rw [← whole] at member
    exact List.mem_takeWhile_imp member
  rw [List.takeWhile_append_of_pos all, List.append_right_eq_self] at whole
  cases behind with
  | nil => rfl
  | cons char rest =>
      rw [List.takeWhile_cons] at whole
      split at whole
      · cases whole
      · rename_i fails
        simpa using fails

private theorem RunEnds.of_stops
    {holds : Char → Bool}
    (covers : ∀ {char}, Numeral.isNumeralLetter char = true → holds char = true)
    {before behind : List Char} (stops : behind.head?.any holds = false) :
    RunEnds before behind := by
  refine .inr ?_
  cases behind with
  | nil => rfl
  | cons char rest =>
      rw [List.head?_cons, Option.any_some, Bool.eq_false_iff] at stops ⊢
      exact fun isLetter => stops (covers isLetter)

/-- No run goes on behind a blank or a sign. -/
theorem RunEnds.of_isDelimiter
    {char : Char} (isDelimiter : isDelimiter char = true) (before behind : List Char) :
    RunEnds (before ++ [char]) behind := by
  refine .inl ?_
  rw [List.getLast?_concat, Option.any_some]
  exact not_isNumeralLetter_of_isDelimiter isDelimiter

/-- A word that is taken ends the run that it belongs to. -/
theorem Stands.runEnds
    (spelled : table.Spelled) (endsApart : table.EndsApart)
    {before tail behind : List Char} {first : Char} {symbol : Symbol}
    (stands : Stands table first (tail ++ behind) (.word symbol (first :: tail))) :
    RunEnds (before ++ first :: tail) behind := by
  generalize isWord : first :: tail = word at stands
  cases stands with
  | sign isSign =>
      exact .of_isDelimiter (Bool.or_eq_true_iff.mpr (.inr (by rw [isSign]; rfl))) before behind
  | name =>
      have whole : (first :: tail ++ behind).takeWhile Char.isAlphanum = first :: tail :=
        isWord.symm
      have covers : ∀ {char}, Numeral.isNumeralLetter char = true → char.isAlphanum = true :=
        fun isLetter => isAlphanum_of_isUpper (isUpper_of_isNumeralLetter isLetter)
      exact .of_stops covers (head?_of_takeWhile whole)
  | capital isUpper capital =>
      cases capital with
      | @keyword entry chosen _ =>
          obtain ⟨member, _⟩ := Keyword.longestAt_fits chosen
          refine .inl ?_
          rw [List.getLast?_append_of_ne_nil _ (spelled entry member).1]
          exact endsApart entry member
      | numeral isRun _ _ _ =>
          subst isWord
          rw [← List.cons_append] at isRun
          exact .of_stops id (head?_of_takeWhile isRun)

/-- A word that holds all characters of a kind that there are still does if the text is cut behind
it. -/
theorem takeWhile_of_cut
    {holds : Char → Bool} {word initial more : List Char}
    (whole : (word ++ (initial ++ more)).takeWhile holds = word) :
    (word ++ initial).takeWhile holds = word := by
  have all : ∀ char ∈ word, holds char = true := by
    intro char member
    rw [← whole] at member
    exact List.mem_takeWhile_imp member
  have stops := head?_of_takeWhile whole
  rw [List.takeWhile_append_of_pos all, List.append_right_eq_self]
  cases initial with
  | nil => rfl
  | cons char rest =>
      rw [List.cons_append, List.head?_cons, Option.any_some] at stops
      exact List.takeWhile_cons_of_neg (Bool.eq_false_iff.mp stops)

private theorem length_takeWhile_le_append (holds : Char → Bool) (chars more : List Char) :
    (chars.takeWhile holds).length ≤ ((chars ++ more).takeWhile holds).length := by
  rw [List.takeWhile_append]
  split
  · rename_i whole
    rw [whole, List.length_append]
    exact Nat.le_add_right _ _
  · exact Nat.le_refl _

/-- Capital letters are taken for the same word if the text is cut behind it. -/
theorem Capital.of_cut
    {word initial more : List Char} {symbol : Symbol}
    (capital : Capital table (word ++ (initial ++ more)) symbol word) :
    Capital table (word ++ initial) symbol word := by
  have narrower : ∀ entry ∈ table.entries, entry.Fits (word ++ initial) →
      entry.Fits (word ++ (initial ++ more)) := by
    intro entry _ fits
    rw [← List.append_assoc]
    exact fits.trans (List.prefix_append _ _)
  cases capital with
  | @keyword entry chosen atMost =>
      refine .keyword ?_ (Nat.le_trans ?_ atMost)
      · exact Keyword.longestAt_of_narrower chosen (List.prefix_append _ _) narrower
      · rw [← List.append_assoc]
        exact length_takeWhile_le_append _ _ more
  | numeral isRun nonempty isNumeral shorter =>
      refine .numeral (takeWhile_of_cut isRun) nonempty isNumeral fun entry chosen => ?_
      obtain ⟨member, fits⟩ := Keyword.longestAt_fits chosen
      obtain ⟨best, chosen', atMost⟩ :=
        Keyword.length_le_longestAt member (narrower entry member fits)
      exact Nat.lt_of_le_of_lt atMost (shorter best chosen')

/-- What is taken for a word is taken for it too if the text is cut behind it. -/
theorem pieceAt_of_cut
    {first : Char} {tail initial more : List Char} {symbol : Symbol}
    (taken : pieceAt table first (tail ++ (initial ++ more)) = .word symbol (first :: tail)) :
    pieceAt table first (tail ++ initial) = .word symbol (first :: tail) := by
  have stands := taken ▸ stands_pieceAt table first (tail ++ (initial ++ more))
  generalize isWord : first :: tail = word at stands taken
  cases stands with
  | sign isSign => exact pieceAt_sign isSign _
  | name isLower =>
      have whole : (first :: tail ++ (initial ++ more)).takeWhile Char.isAlphanum = first :: tail :=
        isWord.symm
      rw [pieceAt_of_isAlphanum (isAlphanum_of_isLower isLower), if_pos isLower,
        ← List.cons_append, takeWhile_of_cut whole, isWord]
  | capital isUpper capital =>
      subst isWord
      rw [pieceAt_of_isUpper isUpper, capitalPiece_eq_word, ← List.cons_append]
      exact capital.of_cut

/-- The whole run of numeral letters at a place is no numeral, though it is longer than any keyword
there. -/
structure MalformedAt (table : Keyword.Table) (chars : List Char) (run : String) : Prop where
  nonempty : run ≠ ""
  whole : chars.takeWhile Numeral.isNumeralLetter = run.toList
  malformed : Numeral.isNumeral run = false
  longer : ∀ entry ∈ table.entries, entry.Fits chars → entry.spelling.length < run.length

/-- What a scan does not know: a malformed numeral, or a character with which neither a numeral nor
a keyword in capitals begins. -/
inductive Unknown (table : Keyword.Table) (first : Char) (rest : List Char) : Problem → Prop
  | malformed {run : String} :
      MalformedAt table (first :: rest) run → Unknown table first rest (.malformedNumeral run)
  | unexpected :
      (∀ entry ∈ table.entries, entry.spelling.toList.head?.any Char.isUpper = true →
        ¬ entry.Fits (first :: rest)) →
      Numeral.isNumeralLetter first = false →
      Unknown table first rest (.unexpectedCharacter first)

variable {first : Char} {rest : List Char} {problem : Problem}

private theorem unknown_numeralPiece
    (longer : ∀ entry ∈ table.entries, entry.Fits (first :: rest) →
      entry.spelling.length < ((first :: rest).takeWhile Numeral.isNumeralLetter).length)
    (unknown : numeralPiece first ((first :: rest).takeWhile Numeral.isNumeralLetter) =
      .unknown problem) :
    Unknown table first rest problem := by
  generalize isRun : (first :: rest).takeWhile Numeral.isNumeralLetter = run at longer unknown
  unfold numeralPiece at unknown
  split at unknown
  · rename_i isEmpty
    cases unknown
    rw [List.isEmpty_iff] at isEmpty
    subst isEmpty
    refine .unexpected (fun entry member _ fits => ?_) ?_
    · exact Nat.not_lt_zero _ (longer entry member fits)
    · by_contra isLetter
      rw [List.takeWhile_cons_of_pos (Bool.not_eq_false _ ▸ isLetter)] at isRun
      cases isRun
  · rename_i nonempty
    split at unknown
    · cases unknown
    · rename_i notNumeral
      cases unknown
      refine .malformed ⟨?_, ?_, Bool.eq_false_iff.mpr notNumeral, ?_⟩
      · simpa [String.ofList_eq_empty_iff] using nonempty
      · rw [isRun, String.toList_ofList]
      · simpa using longer

private theorem unknown_capitalPiece
    (unknown : capitalPiece table first rest = .unknown problem) :
    Unknown table first rest problem := by
  unfold capitalPiece at unknown
  dsimp only at unknown
  split at unknown
  · rename_i best chosen
    split at unknown
    · cases unknown
    · rename_i shorter
      refine unknown_numeralPiece (fun entry member fits => ?_) unknown
      obtain ⟨best', chosen', atMost⟩ := Keyword.length_le_longestAt member fits
      cases chosen.symm.trans chosen'
      exact Nat.lt_of_le_of_lt atMost (Nat.lt_of_not_le shorter)
  · rename_i missing
    refine unknown_numeralPiece (fun entry member fits => ?_) unknown
    obtain ⟨best, chosen, _⟩ := Keyword.length_le_longestAt member fits
    rw [missing] at chosen
    cases chosen

/-- Nothing unknown begins with a character that begins a blank, a sign or a name. -/
theorem unknown_pieceAt
    (unknown : pieceAt table first rest = .unknown problem) :
    (isBlank first = false ∧ signSymbol? first = none ∧ first.isLower = false) ∧
      Unknown table first rest problem := by
  unfold pieceAt at unknown
  split at unknown
  · cases unknown
  · rename_i notBlank
    split at unknown
    · cases unknown
    · rename_i notSign
      split at unknown
      · cases unknown
      · rename_i notLower
        refine ⟨⟨Bool.eq_false_iff.mpr notBlank, notSign, Bool.eq_false_iff.mpr notLower⟩, ?_⟩
        split at unknown
        · exact unknown_capitalPiece unknown
        · rename_i notUpper
          cases unknown
          refine .unexpected (fun entry _ begins fits => notUpper ?_) ?_
          · -- A spelling that fits begins with the character at the place.
            obtain ⟨more, isText⟩ := fits
            cases isSpelling : entry.spelling.toList with
            | nil => simp [isSpelling] at begins
            | cons head tail =>
                rw [isSpelling, List.cons_append] at isText
                cases isText
                simpa [isSpelling] using begins
          · exact Bool.eq_false_iff.mpr fun isLetter =>
              notUpper (isUpper_of_isNumeralLetter isLetter)

/-- At a place at most one run is malformed. -/
theorem MalformedAt.unique
    {chars : List Char} {run run' : String} (malformed : MalformedAt table chars run)
    (malformed' : MalformedAt table chars run') : run = run' :=
  String.toList_injective (malformed.whole.symm.trans malformed'.whole)

/-- A malformed run begins with a numeral letter. -/
theorem MalformedAt.isNumeralLetter
    {run : String} (malformed : MalformedAt table (first :: rest) run) :
    Numeral.isNumeralLetter first = true := by
  by_contra notLetter
  have whole := malformed.whole
  rw [List.takeWhile_cons_of_neg notLetter] at whole
  exact malformed.nonempty (String.toList_eq_nil_iff.mp whole.symm)

/-! ## Messages -/

private theorem message_malformedNumeral (text : String) :
    (Problem.malformedNumeral text).message = "Invalid Roman numeral: " ++ text :=
  rfl

private theorem message_unexpectedCharacter (char : Char) :
    (Problem.unexpectedCharacter char).message =
      "Unexpected character: " ++ Text.quoted (String.singleton char) :=
  rfl

/-- The message calls a numeral invalid exactly if that numeral is malformed there. -/
theorem Unknown.message_iff
    (unknown : Unknown table first rest problem) (run : String) :
    problem.message = "Invalid Roman numeral: " ++ run ↔
      MalformedAt table (first :: rest) run := by
  cases unknown with
  | @malformed run' malformed =>
      rw [message_malformedNumeral, String.append_right_inj]
      constructor
      · rintro rfl
        exact malformed
      · intro malformed'
        exact malformed.unique malformed'
  | unexpected _ notLetter =>
      rw [message_unexpectedCharacter]
      constructor
      · intro same
        have heads := congrArg (fun text => text.toList.head?) same
        simp [String.toList_append] at heads
      · intro malformed
        rw [malformed.isNumeralLetter] at notLetter
        cases notLetter

/-- A scan that fails came upon an unknown piece, and the diagnostic stands there. What is before
that place gives tokens alone. -/
theorem Scans.exists_unknown
    (spelled : table.Spelled) {before chars : List Char} {diagnostic : Diagnostic}
    (scans : Scans table path before chars (.error diagnostic)) :
    ∃ initial first rest problem, chars = initial ++ first :: rest ∧
      pieceAt table first rest = .unknown problem ∧
        diagnostic = ⟨problem, (Place.after (before ++ initial)).line,
          (Place.after (before ++ initial)).column, path⟩ ∧
          (∃ tokens, Scans table path before initial (.ok tokens)) ∧
            (table.EndsApart → RunEnds before chars →
              RunEnds (before ++ initial) (first :: rest)) := by
  generalize result : Except.error diagnostic = outcome at scans
  induction scans with
  | done => cases result
  | @blank before behind char outcome blank _ inductionHypothesis =>
      obtain ⟨initial, first, rest, problem, rfl, isPiece, isDiagnostic, ⟨tokens, scans⟩, ends⟩ :=
        inductionHypothesis result
      rw [List.append_assoc, List.singleton_append] at isDiagnostic ends
      refine ⟨char :: initial, first, rest, problem, rfl, isPiece, isDiagnostic,
        ⟨tokens, .blank blank scans⟩, ?_⟩
      intro endsApart _
      exact ends endsApart (.of_isDelimiter (Bool.or_eq_true_iff.mpr (.inl blank)) before _)
  | word => cases result
  | @failed before tail behind start symbol diagnostic taken _ inductionHypothesis =>
      cases result
      obtain ⟨initial, first, rest, problem, rfl, isPiece, isDiagnostic, ⟨tokens, scans⟩, ends⟩ :=
        inductionHypothesis rfl
      rw [List.append_assoc] at isDiagnostic ends
      refine ⟨start :: tail ++ initial, first, rest, problem, by rw [List.append_assoc], isPiece,
        isDiagnostic, ⟨_, .word (pieceAt_of_cut taken) scans⟩, ?_⟩
      intro endsApart _
      exact ends endsApart ((taken ▸ stands_pieceAt table start _).runEnds spelled endsApart)
  | @unknown before behind first problem isPiece =>
      cases result
      exact ⟨[], first, behind, problem, rfl, isPiece, by rw [List.append_nil], ⟨_, .done⟩,
        by simp⟩

/-- The tokens of a text are those that its steps give. -/
theorem Scans.scanFrom_eq
    {before chars : List Char} {outcome : Except Diagnostic (List Token)}
    (scans : Scans table path before chars outcome) :
    scanFrom table path 0 (.after before) chars = outcome := by
  induction scans with
  | done => rfl
  | blank isBlank _ inductionHypothesis => rw [scanFrom_blank isBlank, inductionHypothesis]
  | word taken _ inductionHypothesis =>
      rw [scanFrom_word _ taken, inductionHypothesis]
      rfl
  | failed taken _ inductionHypothesis =>
      rw [scanFrom_word _ taken, inductionHypothesis]
      rfl
  | unknown isPiece => rw [scanFrom, isPiece]

/-- The last token marks the end of the text. -/
theorem Scans.getLast?
    {before chars : List Char} {tokens : List Token}
    (scans : Scans table path before chars (.ok tokens)) :
    tokens.getLast? = some (atPlace (.after (before ++ chars)) .endOfText "") := by
  induction scans using Scans.induction_ok with
  | done => rw [List.append_nil]; rfl
  | blank _ _ _ _ _ _ inductionHypothesis => rw [inductionHypothesis, List.append_assoc]; rfl
  | word _ _ _ _ _ _ _ _ inductionHypothesis =>
      rw [List.getLast?_cons, inductionHypothesis, List.append_assoc]
      rfl

/-- A scan fails at the first place where no word begins. The text before it is scanned to its end,
which is that place, and the message tells which of the two kinds of unknown pieces stands there. -/
theorem scan_stops
    {origin : Keyword.Source} (loaded : origin.load = .ok table) {source : String}
    {diagnostic : Diagnostic} (failed : scan table source path = .error diagnostic) :
    ∃ before first rest,
      source.toList = before ++ first :: rest ∧
        diagnostic.line = (Place.after before).line ∧
        diagnostic.column = (Place.after before).column ∧
        (∃ tokens, scan table (String.ofList before) path = .ok tokens ∧
          tokens.getLast? = some ⟨.endOfText, "", diagnostic.line, diagnostic.column⟩) ∧
        (isBlank first = false ∧ signSymbol? first = none ∧ first.isLower = false) ∧
        (∀ run, diagnostic.message = "Invalid Roman numeral: " ++ run ↔
          MalformedAt table (first :: rest) run) ∧
        ((∀ run, ¬ MalformedAt table (first :: rest) run) →
          diagnostic.message = "Unexpected character: " ++ Text.quoted (String.singleton first) ∧
            (∀ entry ∈ table.entries, entry.spelling.toList.head?.any Char.isUpper = true →
              ¬ entry.Fits (first :: rest)) ∧
            Numeral.isNumeralLetter first = false) := by
  have spelled := Keyword.spelled_of_load loaded
  have scans := scans_scan spelled source path
  rw [failed] at scans
  obtain ⟨before, first, rest, problem, isText, isPiece, rfl, ⟨tokens, scans⟩, _⟩ :=
    scans.exists_unknown spelled
  obtain ⟨notOther, unknown⟩ := unknown_pieceAt isPiece
  refine ⟨before, first, rest, isText, rfl, rfl, ⟨tokens, ?_, scans.getLast?⟩, notOther,
    unknown.message_iff, fun wellFormed => ?_⟩
  · rw [scan, String.toList_ofList]
    exact scans.scanFrom_eq
  · cases unknown with
    | malformed malformed => exact absurd malformed (wellFormed _)
    | unexpected noKeyword notLetter => exact ⟨rfl, noKeyword, notLetter⟩

theorem scan_stops_fours :
    Keyword.Source.usual.load = .ok .usual ∧
      scan .usual "As x =\n IIII" none = .error ⟨.malformedNumeral "IIII", 2, 1, none⟩ ∧
      ∃ before first rest,
        "As x =\n IIII".toList = before ++ first :: rest ∧
          (2 : Int) = (Place.after before).line ∧ (1 : Int) = (Place.after before).column ∧
          (∃ tokens, scan .usual (String.ofList before) none = .ok tokens ∧
            tokens.getLast? = some ⟨.endOfText, "", 2, 1⟩) ∧
          MalformedAt .usual (first :: rest) "IIII" := by
  have loaded : Keyword.Source.usual.load = .ok .usual := rfl
  have failed : scan .usual "As x =\n IIII" none =
      .error ⟨.malformedNumeral "IIII", 2, 1, none⟩ := by decide +kernel
  obtain ⟨before, first, rest, isText, line, column, scanned, _, malformed, _⟩ :=
    scan_stops loaded failed
  exact ⟨loaded, failed, before, first, rest, isText, line, column, scanned,
    (malformed "IIII").mp rfl⟩

end Token

end RomanScript
