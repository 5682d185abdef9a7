import RomanScript.Symbol
import RomanScript.Text.Decimal
import RomanScript.Text.Quoted

/-!
Tokens: pieces of text with a terminal symbol and the place where they begin. Lines count from one
and columns from zero.
-/

namespace RomanScript

/-- A piece of text with its symbol and place. -/
structure Token where
  symbol : Symbol
  text : String
  line : Int
  column : Int
  deriving DecidableEq, Repr

namespace Token

/-- A place in short, such as `L1:0`. -/
def placeMark (line column : Int) : String :=
  "L" ++ Text.decimal line ++ ":" ++ Text.decimal column

/-- A token in full, such as `Token(ROMAN, 'XIV', L1:6)`. -/
def describe (token : Token) : String :=
  "Token(" ++ token.symbol.name ++ ", " ++ Text.quoted token.text ++ ", " ++
    placeMark token.line token.column ++ ")"

end Token

end RomanScript
