import RomanScript.Token

/-!
Diagnostics: what is wrong with a program, and where. The causes come in three stages, which are
the stages of reading a program: its lexemes, its grammar and the meaning of its names.
-/

namespace RomanScript

inductive Stage where
  | lexical
  | grammatical
  | semantic
  deriving DecidableEq, Repr

def Stage.name : Stage → String
  | lexical => "lexical"
  | grammatical => "syntax"
  | semantic => "semantic"

/-- What can be wrong with a program; a remark is a problem put in someone else's words. -/
inductive Problem where
  | unexpectedCharacter (char : Char)
  | malformedNumeral (text : String)
  | unexpectedToken (wanted : String) (found : Symbol) (text : String)
  | tooDeep (limit : Nat)
  | functionRedefined (name : String)
  | variableRedefined (name : String)
  | parameterRepeated (name : String)
  | functionUndefined (name : String)
  | variableUndefined (name : String)
  | arityMismatch (name : String) (expected got : Nat)
  | remark (stage : Option Stage) (text : String)
  deriving DecidableEq, Repr

namespace Problem

def stage : Problem → Option Stage
  | unexpectedCharacter _ | malformedNumeral _ => some .lexical
  | unexpectedToken _ _ _ | tooDeep _ => some .grammatical
  | functionRedefined _ | variableRedefined _ | parameterRepeated _ | functionUndefined _
  | variableUndefined _ | arityMismatch _ _ _ => some .semantic
  | remark stage _ => stage

def message : Problem → String
  | unexpectedCharacter char => "Unexpected character: " ++ Text.quoted (String.singleton char)
  | malformedNumeral text => "Invalid Roman numeral: " ++ text
  | unexpectedToken wanted found text =>
    "Expected " ++ wanted ++ ", got " ++ found.name ++ " " ++ Text.quoted text
  | tooDeep limit => "Expression nested more than " ++ Text.decimal limit ++ " levels deep"
  | functionRedefined name => "Function " ++ name ++ " is already defined"
  | variableRedefined name => "Variable " ++ name ++ " is already defined"
  | parameterRepeated name => "Duplicate parameter name: " ++ name
  | functionUndefined name => "Undefined function: " ++ name
  | variableUndefined name => "Undefined variable: " ++ name
  | arityMismatch name expected got =>
    "Function " ++ name ++ " expects " ++ Text.decimal expected ++ " arguments, got " ++
      Text.decimal got
  | remark _ text => text

end Problem

/-- A problem with its place and, if known, the path of the text it was found in. -/
structure Diagnostic where
  problem : Problem
  line : Int
  column : Int
  path : Option String
  deriving DecidableEq, Repr

namespace Diagnostic

def stage (diagnostic : Diagnostic) : Option Stage :=
  diagnostic.problem.stage

def message (diagnostic : Diagnostic) : String :=
  diagnostic.problem.message

/-- The whole diagnostic on one line; an empty path is left out like a missing one. -/
def describe (diagnostic : Diagnostic) : String :=
  (match diagnostic.path with
    | none | some "" => ""
    | some path => path ++ ":") ++
  Text.decimal diagnostic.line ++ ":" ++ Text.decimal diagnostic.column ++ ": " ++
    diagnostic.message

end Diagnostic

end RomanScript
