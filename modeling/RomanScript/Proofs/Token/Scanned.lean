import RomanScript.Token.Scan

/-!
# What scanning gives

A text is scanned to tokens of which the last marks its end and whose numerals can be read, or to a
diagnostic about a lexeme.
-/

namespace RomanScript.Token

variable (table : Keyword.Table) {path : Option String}

def Legible (token : Token) : Prop :=
  token.symbol = .numeral → Numeral.isNumeral token.text = true

/-- A word that passes for a numeral is one, and only lexemes are unknown. -/
inductive Piece.Credible : Piece → Prop
  | blank : Credible .blank
  | word {symbol : Symbol} {chars : List Char} :
      (symbol = .numeral → Numeral.isNumeral (String.ofList chars) = true) →
      Credible (.word symbol chars)
  | unknown {problem : Problem} :
      problem.stage = some .lexical → Credible (.unknown problem)

private theorem credible_numeralPiece (first : Char) (run : List Char) :
    (numeralPiece first run).Credible := by
  unfold numeralPiece
  split
  · exact .unknown rfl
  · split
    · rename_i isNumeral
      exact .word fun _ => isNumeral
    · exact .unknown rfl

private theorem credible_capitalPiece (first : Char) (rest : List Char) :
    (capitalPiece table first rest).Credible := by
  unfold capitalPiece
  dsimp only
  split
  · split
    · exact .word nofun
    · exact credible_numeralPiece first _
  · exact credible_numeralPiece first _

private theorem signSymbol?_ne_numeral
    {char : Char} {symbol : Symbol} (isSign : signSymbol? char = some symbol) :
    symbol ≠ .numeral := by
  rintro rfl
  unfold signSymbol? at isSign
  split at isSign <;> cases isSign

private theorem credible_pieceAt (first : Char) (rest : List Char) :
    (pieceAt table first rest).Credible := by
  unfold pieceAt
  split
  · exact .blank
  · split
    · rename_i symbol isSign
      exact .word fun isNumeral => absurd isNumeral (signSymbol?_ne_numeral isSign)
    · split
      · exact .word nofun
      · split
        · exact credible_capitalPiece table first rest
        · exact .unknown rfl

/-- Tokens that are ended and legible, or a diagnostic about a lexeme of the text. -/
def Scanned (path : Option String) : Except Diagnostic (List Token) → Prop
  | .ok tokens =>
    (tokens.getLast?.map (·.symbol)) = some .endOfText ∧ ∀ token ∈ tokens, token.Legible
  | .error diagnostic => diagnostic.stage = some .lexical ∧ diagnostic.path = path

private theorem Scanned.cons
    {token : Token} {tokens : List Token} (scanned : Scanned path (.ok tokens))
    (legible : token.Legible) : Scanned path (.ok (token :: tokens)) := by
  obtain ⟨ended, others⟩ := scanned
  refine ⟨?_, List.forall_mem_cons.mpr ⟨legible, others⟩⟩
  cases tokens with
  | nil => cases ended
  | cons next rest => exact ended

private theorem scanned_scanFrom (skip : Nat) (place : Place) (chars : List Char) :
    Scanned path (scanFrom table path skip place chars) := by
  induction chars generalizing skip place with
  | nil =>
      rw [scanFrom]
      exact ⟨rfl, List.forall_mem_singleton.mpr nofun⟩
  | cons char rest inductionHypothesis =>
      cases skip with
      | succ skip => exact inductionHypothesis skip (place.behind char)
      | zero =>
          have credible := credible_pieceAt table char rest
          rw [scanFrom]
          generalize pieceAt table char rest = piece at credible
          cases credible with
          | blank => exact inductionHypothesis 0 (place.behind char)
          | @word symbol chars legible =>
              -- The scan goes on at the next character and passes over the rest of the word.
              have behind := inductionHypothesis (chars.length - 1) (place.behind char)
              dsimp only
              generalize scanFrom table path (chars.length - 1) (place.behind char) rest = outcome
                at behind
              cases outcome with
              | error diagnostic => exact behind
              | ok tokens => exact behind.cons legible
          | unknown lexical => exact ⟨lexical, rfl⟩

/-- Every text is scanned to tokens that end and can be read, or to a diagnostic about a lexeme. -/
theorem scanned_scan (source : String) (path : Option String) :
    Scanned path (scan table source path) :=
  scanned_scanFrom table 0 Place.start source.toList

end RomanScript.Token
