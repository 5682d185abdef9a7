import RomanScript.Grammar.Reading

/-!
The grammar of expressions. Sums bind less tightly than products, products less tightly than signs,
and signs less tightly than calls, which are a name followed by what it is applied to. Every rule
takes the reading of a whole expression as a parameter; the knot is tied once, at the end, where
each turn is one level of nesting.
-/

namespace RomanScript.Grammar

open Reading

/-- What can begin an atom, and so an argument of a call. -/
def atomStart : List Symbol :=
  [.numeral, .identifier, .keyword .input, .openParen]

variable (input : Input) (expression : Reading Node)

/-- An expression in parentheses, within which calls are recognised. -/
def group : Reading Node := do
  visit .group
  let opening ← leaf input
  let inner ← withCalls true expression
  let closing ← expect input .closeParen
  expressionRule input .group [opening, inner, closing]

def atom : Reading Node := do
  if ← sees input [.numeral, .identifier, .keyword .input] then leaf input
  else if ← sees input [.openParen] then remembering input .group (group input expression)
  else refuse input "expression"

/-- As many atoms as follow, in at most `steps` steps. -/
def atoms : Nat → Reading (List Node)
  | 0 => fail (.misuse .unending)
  | steps + 1 => do
    if ← sees input atomStart then
      let first ← atom input expression
      let rest ← atoms steps
      return first :: rest
    else return []

/-- The three operands of a conditional, with or without calls outside parentheses. -/
def operands (calls : Bool) : Reading (List Node) :=
  withCalls calls do
    let condition ← expression
    let consequence ← expression
    let alternative ← expression
    return [condition, consequence, alternative]

/-- A conditional. Its operands are read with calls and, where that fails, without. -/
def conditional : Reading Node := do
  visit .conditional
  let keyword ← leaf input
  let parts ← orElseAgain (operands expression true) (operands expression false)
  expressionRule input .conditional (keyword :: parts)

/-- Whether a call begins here: calls are recognised, and a name is followed by an atom. -/
def seesCall : Reading Bool := do
  if !(← state).calls then return false
  else if !(← sees input [.identifier]) then return false
  else
    let next ← peek input 1
    return atomStart.contains next.symbol

def call : Reading Node := do
  let callee ← leaf input
  let arguments ← withBudget input (atoms input expression)
  expressionRule input .call (callee :: arguments)

def term : Reading Node := do
  if ← sees input [.keyword .choose] then
    remembering input .conditional (conditional input expression)
  else if ← seesCall input then call input expression
  else atom input expression

/-- A term after any number of signs, of which at most `steps` are read. -/
def signedWithin : Nat → Reading Node
  | 0 => fail (.misuse .unending)
  | steps + 1 => do
    if ← sees input [.plus, .minus] then
      let sign ← leaf input
      nested input do
        let operand ← signedWithin steps
        expressionRule input .signed [sign, operand]
    else term input expression

def signed : Reading Node :=
  withBudget input (signedWithin input expression)

/-- What follows `left` in a chain of operators that group to the left, in at most `steps`
steps. -/
def chainWithin (symbol : Symbol) (operators : List Symbol) (operand : Reading Node) :
    Nat → Node → Reading Node
  | 0, _ => fail (.misuse .unending)
  | steps + 1, left => do
    if ← sees input operators then
      let operator ← leaf input
      let right ← operand
      let joined ← expressionRule input symbol [left, operator, right]
      chainWithin symbol operators operand steps joined
    else return left

/-- Operands joined by operators that group to the left. -/
def chain (symbol : Symbol) (operators : List Symbol) (operand : Reading Node) : Reading Node := do
  let first ← operand
  withBudget input fun steps => chainWithin input symbol operators operand steps first

def product : Reading Node :=
  chain input .product [.times, .divide] (signed input expression)

def sum : Reading Node :=
  chain input .sum [.plus, .minus] (product input expression)

/-- A sum, one level of nesting deeper, with at most `levels` levels in all. -/
def expressionWithin : Nat → Reading Node
  | 0 => fail (.misuse .unending)
  | levels + 1 => fun state => nested input (sum input (expressionWithin levels)) state

def wholeExpression : Reading Node :=
  withBudget input (expressionWithin input)

end RomanScript.Grammar
