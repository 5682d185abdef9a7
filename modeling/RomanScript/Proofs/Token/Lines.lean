import RomanScript.Proofs.Token.Scans

/-!
# Texts line by line

No piece of a text reaches over the end of a line, and what stands on a line does not depend on the
lines above, except that it stands further down. So two texts with a line feed between them give the
tokens of both, and the first problem is that of the first text which has one.
-/

namespace RomanScript

def Token.Place.down (place : Place) (lines : Nat) : Place :=
  ⟨place.line + lines, place.column⟩

def Token.down (token : Token) (lines : Nat) : Token :=
  { token with line := token.line + lines }

def Diagnostic.down (diagnostic : Diagnostic) (lines : Nat) : Diagnostic :=
  { diagnostic with line := diagnostic.line + lines }

namespace Token

private theorem Place.behind_down (place : Place) (char : Char) (lines : Nat) :
    (place.down lines).behind char = (place.behind char).down lines := by
  by_cases endsLine : char = '\n'
  · simp [behind, down, endsLine, Nat.add_right_comm]
  · simp [behind, down, endsLine]

private theorem atPlace_down (place : Place) (symbol : Symbol) (text : String) (lines : Nat) :
    atPlace (place.down lines) symbol text = (atPlace place symbol text).down lines := by
  simp [atPlace, Place.down, Token.down]

variable {table : Keyword.Table} {path : Option String}

/-- A text that begins some lines further down gives the same, all of it as far down. -/
theorem scanFrom_down (skip : Nat) (place : Place) (chars : List Char) (lines : Nat) :
    scanFrom table path skip (place.down lines) chars =
      match scanFrom table path skip place chars with
      | .ok tokens => .ok (tokens.map (·.down lines))
      | .error diagnostic => .error (diagnostic.down lines) := by
  induction chars generalizing skip place with
  | nil =>
      rw [scanFrom, scanFrom, atPlace_down]
      rfl
  | cons char rest inductionHypothesis =>
      cases skip with
      | succ skip =>
          rw [scanFrom, scanFrom, Place.behind_down]
          exact inductionHypothesis skip (place.behind char)
      | zero =>
          rw [scanFrom, scanFrom, Place.behind_down]
          cases pieceAt table char rest with
          | blank => exact inductionHypothesis 0 (place.behind char)
          | word symbol word =>
              dsimp only
              rw [inductionHypothesis (word.length - 1) (place.behind char), atPlace_down]
              cases scanFrom table path (word.length - 1) (place.behind char) rest with
              | ok tokens => rfl
              | error diagnostic => rfl
          | unknown problem => rfl

/-- What stands at a place is the same if the text goes on with a delimiter. -/
theorem pieceAt_append
    (spelled : table.Spelled) (first : Char) (rest : List Char) {behind : List Char}
    (delimits : Delimits behind) :
    pieceAt table first (rest ++ behind) = pieceAt table first rest := by
  have longest : table.longestAt (first :: rest ++ behind) = table.longestAt (first :: rest) :=
    Keyword.longestAt_congr fun entry member =>
      ⟨fits_of_delimits (spelled entry member) delimits,
        fun fits => fits.trans (List.prefix_append _ _)⟩
  have run : (first :: rest ++ behind).takeWhile Numeral.isNumeralLetter = _ :=
    takeWhile_append_of_delimits not_isNumeralLetter_of_isDelimiter (first :: rest) delimits
  have name : (first :: rest ++ behind).takeWhile Char.isAlphanum = _ :=
    takeWhile_append_of_delimits not_isAlphanum_of_isDelimiter (first :: rest) delimits
  rw [List.cons_append] at longest run name
  simp only [pieceAt, capitalPiece, longest, run, name]

theorem delimits_newline (behind : List Char) : Delimits ('\n' :: behind) :=
  rfl

private theorem Scans.ne_nil
    {before chars : List Char} {tokens : List Token}
    (scans : Scans table path before chars (.ok tokens)) : tokens ≠ [] := by
  induction scans using Scans.induction_ok with
  | done => exact List.cons_ne_nil _ _
  | blank _ _ _ _ _ _ inductionHypothesis => exact inductionHypothesis
  | word => exact List.cons_ne_nil _ _

/-- The outcome of two texts one behind the other: the tokens of both, without the end of the
first, or else the first problem. -/
def continued :
    Except Diagnostic (List Token) → Except Diagnostic (List Token) →
      Except Diagnostic (List Token)
  | .ok tokens, .ok more => .ok (tokens.dropLast ++ more)
  | .ok _, .error diagnostic => .error diagnostic
  | .error diagnostic, _ => .error diagnostic

/-- A text that ends with its line is scanned as it is alone. If it gives tokens, the scan goes on
at the beginning of the next line. -/
theorem Scans.scanFrom_line
    (spelled : table.Spelled) {before chars : List Char}
    {outcome : Except Diagnostic (List Token)} (scans : Scans table path before chars outcome)
    (behind : List Char) :
    scanFrom table path 0 (.after before) (chars ++ '\n' :: behind) =
      continued outcome (scanFrom table path 0 (.after (before ++ chars ++ ['\n'])) behind) := by
  have delimits := delimits_newline behind
  induction scans with
  | @done before =>
      rw [List.nil_append, scanFrom_blank rfl, List.append_nil]
      cases scanFrom table path 0 (.after (before ++ ['\n'])) behind <;> rfl
  | @blank before rest char outcome isBlank _ inductionHypothesis =>
      rw [List.cons_append, scanFrom_blank isBlank, inductionHypothesis, List.append_assoc before,
        List.singleton_append]
  | @word before tail rest first symbol tokens taken scans inductionHypothesis =>
      have isPiece : pieceAt table first (tail ++ (rest ++ '\n' :: behind)) = _ :=
        List.append_assoc tail rest _ ▸ (pieceAt_append spelled first _ delimits).trans taken
      rw [List.append_assoc, scanFrom_word _ isPiece, inductionHypothesis, List.append_assoc before]
      cases scanFrom table path 0 _ behind with
      | ok more => simp [continued, Except.map, List.dropLast_cons_of_ne_nil scans.ne_nil]
      | error diagnostic => rfl
  | @failed before tail rest first symbol diagnostic taken _ inductionHypothesis =>
      have isPiece : pieceAt table first (tail ++ (rest ++ '\n' :: behind)) = _ :=
        List.append_assoc tail rest _ ▸ (pieceAt_append spelled first _ delimits).trans taken
      rw [List.append_assoc, scanFrom_word _ isPiece, inductionHypothesis]
      rfl
  | @unknown before rest first problem unknown =>
      have isPiece : pieceAt table first (rest ++ '\n' :: behind) = .unknown problem :=
        (pieceAt_append spelled first _ delimits).trans unknown
      rw [List.cons_append, scanFrom, isPiece]
      rfl

/-- A new line begins as many lines below the start as there are line feeds before. -/
theorem Place.after_newline (before : List Char) :
    after (before ++ ['\n']) = start.down (1 + before.count '\n') := by
  simp [after, start, down, Nat.add_comm]

/-- Two texts with a line feed between them give the tokens of both, those of the second so much
further down; if a text has a problem, they give the problem of the first one that has. -/
theorem scan_lines
    {origin : Keyword.Source} (loaded : origin.load = .ok table) (above below : String)
    (path : Option String) :
    scan table (above ++ "\n" ++ below) path =
      match scan table above path with
      | .ok tokens =>
        match scan table below path with
        | .ok more => .ok (tokens.dropLast ++ more.map (·.down (1 + above.toList.count '\n')))
        | .error diagnostic => .error (diagnostic.down (1 + above.toList.count '\n'))
      | .error diagnostic => .error diagnostic := by
  have spelled := Keyword.spelled_of_load loaded
  have text : (above ++ "\n" ++ below).toList = above.toList ++ '\n' :: below.toList := by
    simp [String.toList_append]
  have joined := (scans_scan spelled above path).scanFrom_line spelled below.toList
  rw [List.nil_append, Place.after_newline, scanFrom_down, Place.after_nil] at joined
  rw [scan, text, joined]
  cases scan table above path with
  | error diagnostic => rfl
  | ok tokens =>
      rw [scan]
      cases scanFrom table path 0 .start below.toList with
      | ok more => rfl
      | error diagnostic => rfl

theorem scan_lines_declaration :
    Keyword.Source.usual.load = .ok .usual ∧
      scan .usual "As x\n=" none =
        .ok [⟨.keyword .declare, "As", 1, 0⟩, ⟨.identifier, "x", 1, 3⟩, ⟨.equals, "=", 2, 0⟩,
          ⟨.endOfText, "", 2, 1⟩] ∧
      scan .usual " XIV" none = .ok [⟨.numeral, "XIV", 1, 1⟩, ⟨.endOfText, "", 1, 4⟩] ∧
      scan .usual ("As x\n=" ++ "\n" ++ " XIV") none =
        .ok [⟨.keyword .declare, "As", 1, 0⟩, ⟨.identifier, "x", 1, 3⟩, ⟨.equals, "=", 2, 0⟩,
          ⟨.numeral, "XIV", 3, 1⟩, ⟨.endOfText, "", 3, 4⟩] := by
  have loaded : Keyword.Source.usual.load = .ok .usual := rfl
  have scanned : scan .usual "As x\n=" none =
      .ok [⟨.keyword .declare, "As", 1, 0⟩, ⟨.identifier, "x", 1, 3⟩, ⟨.equals, "=", 2, 0⟩,
        ⟨.endOfText, "", 2, 1⟩] := by decide +kernel
  have scannedBelow : scan .usual " XIV" none =
      .ok [⟨.numeral, "XIV", 1, 1⟩, ⟨.endOfText, "", 1, 4⟩] := by decide +kernel
  have joined := scan_lines loaded "As x\n=" " XIV" none
  rw [scanned, scannedBelow] at joined
  exact ⟨loaded, scanned, scannedBelow, joined⟩

end Token

end RomanScript
