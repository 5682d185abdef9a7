import RomanScript.Diagnostic

/-!
Failures. An operation fails with a diagnostic when the program it looks at is wrong, and with a
misuse when it was handed something that no text of a program leads to.
-/

namespace RomanScript

/-- Ways of handing an operation what it cannot work on. -/
inductive Misuse where
  | unterminated
  | noToken
  | unending
  | malformedNumeral (text : String)
  | unexpectedNode (name : String) (line column : Int)
  | childCount (expected got : Nat)
  | missingChild
  | unknownOperator (name : String)
  | noOperator (sign : String)
  | noOutcome
  deriving DecidableEq, Repr

def Misuse.message : Misuse → String
  | unterminated => "token sequence must end with an EOF token"
  | noToken => "no token at this position"
  | unending => "the tokens do not end"
  | malformedNumeral text => "Invalid Roman numeral: " ++ text
  | unexpectedNode name line column =>
    "Unexpected syntax node " ++ Text.quoted name ++ " at " ++ Text.decimal line ++ ":" ++
      Text.decimal column
  | childCount expected got =>
    if got < expected then
      "not enough values to unpack (expected " ++ Text.decimal expected ++ ", got " ++
        Text.decimal got ++ ")"
    else
      "too many values to unpack (expected " ++ Text.decimal expected ++ ")"
  | missingChild => "no child at this position"
  | unknownOperator name => name
  | noOperator sign => Text.quoted sign ++ " is not a valid Operator"
  | noOutcome => "CompileResult holds neither a program nor an error"

inductive Failure where
  | diagnostic (diagnostic : Diagnostic)
  | misuse (misuse : Misuse)
  deriving DecidableEq, Repr

end RomanScript
