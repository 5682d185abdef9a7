import RomanScript.Diagnostic
import RomanScript.Numeral

/-!
From a text to its tokens. At every place the longest piece is taken: a blank, a sign, a name, a
keyword or a numeral. Only the place where a piece begins and the characters from there on decide
what it is.
-/

namespace RomanScript.Token

structure Place where
  line : Nat
  column : Nat
  deriving DecidableEq, Repr

def Place.start : Place := ⟨1, 0⟩

def Place.behind (place : Place) (char : Char) : Place :=
  if char = '\n' then ⟨place.line + 1, 0⟩ else ⟨place.line, place.column + 1⟩

/-- What stands at a place of a text: a blank, a word with its symbol, or nothing known. -/
inductive Piece where
  | blank
  | word (symbol : Symbol) (chars : List Char)
  | unknown (problem : Problem)
  deriving DecidableEq, Repr

/-- Blanks separate words and are otherwise ignored. -/
def isBlank (char : Char) : Bool :=
  [' ', '\t', '\r', '\n'].contains char

def signSymbol? : Char → Option Symbol
  | '+' => some .plus
  | '-' => some .minus
  | '*' => some .times
  | '/' => some .divide
  | '=' => some .equals
  | '(' => some .openParen
  | ')' => some .closeParen
  | _ => none

/-- The piece made of a run of numeral letters that begins with `first`. -/
def numeralPiece (first : Char) (run : List Char) : Piece :=
  if run.isEmpty then .unknown (.unexpectedCharacter first)
  else if Numeral.isNumeral (String.ofList run) then .word .numeral run
  else .unknown (.malformedNumeral (String.ofList run))

/-- At a capital letter stands the longer of a keyword and a run of numeral letters, and the keyword
if they are equally long. -/
def capitalPiece (table : Keyword.Table) (first : Char) (rest : List Char) : Piece :=
  let run := (first :: rest).takeWhile Numeral.isNumeralLetter
  match table.longestAt (first :: rest) with
  | some entry =>
    if run.length ≤ entry.spelling.length then
      .word (.keyword entry.keyword) entry.spelling.toList
    else numeralPiece first run
  | none => numeralPiece first run

/-- The piece that begins with `first` and may go on into `rest`. -/
def pieceAt (table : Keyword.Table) (first : Char) (rest : List Char) : Piece :=
  if isBlank first then .blank
  else match signSymbol? first with
    | some symbol => .word symbol [first]
    | none =>
      if first.isLower then .word .identifier ((first :: rest).takeWhile Char.isAlphanum)
      else if first.isUpper then capitalPiece table first rest
      else .unknown (.unexpectedCharacter first)

def atPlace (place : Place) (symbol : Symbol) (text : String) : Token :=
  ⟨symbol, text, place.line, place.column⟩

/-- The tokens of the characters that follow `place`, of which the first `skip` belong to a word
that has been taken already. -/
def scanFrom (table : Keyword.Table) (path : Option String) :
    Nat → Place → List Char → Except Diagnostic (List Token)
  | _, place, [] => .ok [atPlace place .endOfText ""]
  | skip + 1, place, char :: rest => scanFrom table path skip (place.behind char) rest
  | 0, place, char :: rest =>
    match pieceAt table char rest with
    | .blank => scanFrom table path 0 (place.behind char) rest
    | .word symbol chars =>
      match scanFrom table path (chars.length - 1) (place.behind char) rest with
      | .ok tokens => .ok (atPlace place symbol (String.ofList chars) :: tokens)
      | .error diagnostic => .error diagnostic
    | .unknown problem => .error ⟨problem, place.line, place.column, path⟩

def scan (table : Keyword.Table) (source : String) (path : Option String) :
    Except Diagnostic (List Token) :=
  scanFrom table path 0 Place.start source.toList

end RomanScript.Token
