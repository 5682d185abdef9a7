import RomanScript.Grammar.Expression

/-!
The grammar of statements and programs. A statement defines a function, declares a variable or
writes a value; its first keyword tells which.
-/

namespace RomanScript.Grammar

open Reading

variable (input : Input)

def namesWithin : Nat → Reading (List Node)
  | 0 => fail (.misuse .unending)
  | steps + 1 => do
    if ← sees input [.identifier] then
      let first ← leaf input
      let rest ← namesWithin steps
      return first :: rest
    else return []

def functionDef : Reading Node := do
  let keyword ← leaf input
  let name ← expect input .identifier
  let parameters ← withBudget input (namesWithin input)
  let equals ← expect input .equals
  let body ← wholeExpression input
  return .rule .functionDef (keyword :: name :: parameters ++ [equals, body])

def variableDecl : Reading Node := do
  let keyword ← leaf input
  let name ← expect input .identifier
  let equals ← expect input .equals
  let value ← wholeExpression input
  return .rule .variableDecl [keyword, name, equals, value]

def outputStmt : Reading Node := do
  let keyword ← leaf input
  let value ← wholeExpression input
  return .rule .outputStmt [keyword, value]

def statement : Reading Node := do
  let inner ←
    if ← sees input [.keyword .define] then functionDef input
    else if ← sees input [.keyword .declare] then variableDecl input
    else if ← sees input [.keyword .output] then outputStmt input
    else refuse input "a statement"
  return .rule .statement [inner]

/-- All statements up to the end of the text, in at most `steps` steps. -/
def statementsWithin : Nat → Reading (List Node)
  | 0 => fail (.misuse .unending)
  | steps + 1 => do
    if ← sees input [.endOfText] then return []
    else
      let first ← statement input
      let rest ← statementsWithin steps
      return first :: rest

def program : Reading Node := do
  let statements ← withBudget input (statementsWithin input)
  let finish ← leaf input
  return .rule .program (statements ++ [finish])

end RomanScript.Grammar

namespace RomanScript.Tree

open Grammar

/-- The tree of the program that begins the tokens, under given settings; the last token has to
mark the end of the text. -/
def ofTokensUnder (settings : Settings) (tokens : List Token) (path : Option String) :
    Except Failure Tree :=
  if (tokens.getLast?.map (·.symbol)) = some .endOfText then
    match program ⟨tokens.toArray, path, settings⟩ State.start with
    | (.ok root, _) => .ok ⟨root, path⟩
    | (.error failure, _) => .error failure
  else .error (.misuse .unterminated)

def ofTokens (tokens : List Token) (path : Option String) : Except Failure Tree :=
  ofTokensUnder .full tokens path

end RomanScript.Tree
