import RomanScript.Proofs.Program.Judged
import RomanScript.Proofs.Program.Lowered

/-!
# Runs of trees and of programs

What a text does when it is run, told twice: by its syntax tree, in which names stand for what they
name where they are met, and by its program, in which they have been resolved. What the operations
do to numbers is left open, and so is how deeply calls may be nested.
-/

namespace RomanScript

/-- What the operations do to numbers; either may fail, as a division does. -/
structure Arithmetic (ε : Type) where
  unary : Operator → Int → Except ε Int
  binary : Operator → Int → Int → Except ε Int

inductive Stop (ε : Type) where
  | arithmetic (reason : ε)
  | noInput
  | tooDeep
  | unbound (name : String)
  | undefined (name : String)
  | wrongArity (name : String)
  | malformed
  deriving DecidableEq, Repr

/-- The numbers that are still to be read, and those that have been written. -/
structure Channel where
  unread : List Int
  written : List Int
  deriving DecidableEq, Repr

/-- A computation that reads and writes numbers and may stop; what was read and written before
stays so. -/
abbrev Evaluation (ε : Type) := ExceptT (Stop ε) (StateM Channel)

/-- The values of names, of which the first one counts. -/
abbrev Bindings := List (String × Int)

namespace Evaluation

variable {ε : Type}

def read : Evaluation ε Int := do
  match (← get).unread with
  | [] => throw .noInput
  | first :: rest =>
    modify fun channel => { channel with unread := rest }
    return first

def write (value : Int) : Evaluation ε Unit :=
  modify fun channel => { channel with written := channel.written ++ [value] }

def compute : Except ε Int → Evaluation ε Int
  | .ok value => return value
  | .error reason => throw (.arithmetic reason)

/-- How a computation ends when some numbers can be read, and what it leaves. -/
def outcome (evaluation : Evaluation ε Unit) (inputs : List Int) :
    Except (Stop ε) Unit × Channel :=
  evaluation.run.run ⟨inputs, []⟩

end Evaluation

open Evaluation

variable {ε : Type} (arithmetic : Arithmetic ε)

namespace Expression

section Evaluate

variable (invoke : String → List Int → Evaluation ε Int) (bindings : Bindings)

mutual

/-- The value of an expression, where `invoke` calls functions. -/
def evaluate : Expression → Evaluation ε Int
  | literal value => return value
  | .variable name =>
    match bindings.lookup name with
    | some value => return value
    | none => throw (.unbound name)
  | input => read
  | unary operator operand => do
    let operand ← evaluate operand
    compute (arithmetic.unary operator operand)
  | binary operator left right => do
    let left ← evaluate left
    let right ← evaluate right
    compute (arithmetic.binary operator left right)
  | conditional condition consequence alternative => do
    let condition ← evaluate condition
    if condition = 0 then evaluate alternative else evaluate consequence
  | call name arguments => do
    let values ← evaluateAll arguments
    invoke name values

def evaluateAll : List Expression → Evaluation ε (List Int)
  | [] => return []
  | first :: rest => do
    let value ← evaluate first
    let values ← evaluateAll rest
    return value :: values

end

end Evaluate

end Expression

namespace Program

/-- A call of a function, in which calls may be nested as deeply as the number says. The body sees
the parameters alone. -/
def invoke (program : Program) : Nat → String → List Int → Evaluation ε Int
  | 0, _, _ => throw .tooDeep
  | depth + 1, name, values =>
    match program.function? name with
    | none => throw (.undefined name)
    | some function =>
      if values.length = function.arity then
        function.body.evaluate arithmetic (invoke program depth) (function.parameters.zip values)
      else throw (.wrongArity name)

/-- The statements of the main text in order. A declaration is seen by the statements behind it. -/
def runStatements (invoke : String → List Int → Evaluation ε Int) :
    Bindings → List Statement → Evaluation ε Unit
  | _, [] => return ()
  | bindings, .declaration name value :: rest => do
    let value ← value.evaluate arithmetic invoke bindings
    runStatements invoke ((name, value) :: bindings) rest
  | bindings, .output value :: rest => do
    let value ← value.evaluate arithmetic invoke bindings
    write value
    runStatements invoke bindings rest

/-- A run of a program on some inputs: how it ends, what was left unread, and what was written. -/
def run (program : Program) (depth : Nat) (inputs : List Int) :
    Except (Stop ε) Unit × Channel :=
  outcome (runStatements arithmetic (program.invoke arithmetic depth) [] program.statements) inputs

end Program

namespace Node

def operation (token : Token) : Evaluation ε Operator :=
  match token.symbol with
  | .plus => return .add
  | .minus => return .sub
  | .times => return .mul
  | .divide => return .div
  | _ => throw .malformed

section Evaluate

variable (invoke : String → List Int → Evaluation ε Int) (bindings : Bindings)

/-- A name stands for its value if it has one, and else for a call without arguments. -/
def evaluateName (name : String) : Evaluation ε Int :=
  match bindings.lookup name with
  | some value => return value
  | none => invoke name []

def evaluateToken (token : Token) : Evaluation ε Int :=
  match token.symbol with
  | .numeral =>
    match Numeral.value? token.text with
    | some value => return value
    | none => throw .malformed
  | .keyword .input => read
  | .identifier => evaluateName invoke bindings token.text
  | _ => throw .malformed

mutual

/-- The value of the expression that a node stands for, where `invoke` calls functions. -/
def evaluate : Node → Evaluation ε Int
  | .leaf token => evaluateToken invoke bindings token
  | .branch .sum _ _ _ _ [left, .leaf operator, right]
  | .branch .product _ _ _ _ [left, .leaf operator, right] => do
    let operator ← operation operator
    let left ← evaluate left
    let right ← evaluate right
    compute (arithmetic.binary operator left right)
  | .branch .signed _ _ _ _ [.leaf sign, operand] => do
    let operator ← operation sign
    let operand ← evaluate operand
    compute (arithmetic.unary operator operand)
  | .branch .group _ _ _ _ [_, inner, _] => evaluate inner
  | .branch .conditional _ _ _ _ [_, condition, consequence, alternative] => do
    let condition ← evaluate condition
    if condition = 0 then evaluate alternative else evaluate consequence
  | .branch .call _ _ _ _ (.leaf callee :: arguments) => do
    let values ← evaluateAll arguments
    invoke callee.text values
  | _ => throw .malformed

def evaluateAll : List Node → Evaluation ε (List Int)
  | [] => return []
  | first :: rest => do
    let value ← evaluate first
    let values ← evaluateAll rest
    return value :: values

end

end Evaluate

open Program (nameOf? parametersOf sentencesOf)

def definition? (definitions : List Node) (name : String) : Option Node :=
  definitions.find? fun definition => (nameOf? definition).any (·.text == name)

/-- A call of the function that a definition of that name defines, in which calls may be nested as
deeply as the number says. The body sees the parameters alone. -/
def invoke (definitions : List Node) : Nat → String → List Int → Evaluation ε Int
  | 0, _, _ => throw .tooDeep
  | depth + 1, name, values =>
    match definition? definitions name with
    | none => throw (.undefined name)
    | some definition =>
      match definition.children.getLast? with
      | none => throw .malformed
      | some body =>
        let parameters := (parametersOf definition).map text
        if values.length = parameters.length then
          body.evaluate arithmetic (invoke definitions depth) (parameters.zip values)
        else throw (.wrongArity name)

/-- The statements of the main text in order, definitions passed over. A declaration is seen by the
statements behind it. -/
def runSentences (invoke : String → List Int → Evaluation ε Int) :
    Bindings → List Node → Evaluation ε Unit
  | _, [] => return ()
  | bindings, .branch .variableDecl _ _ _ _ [_, name, _, value] :: rest => do
    let value ← value.evaluate arithmetic invoke bindings
    runSentences invoke ((name.text, value) :: bindings) rest
  | bindings, .branch .outputStmt _ _ _ _ [_, value] :: rest => do
    let value ← value.evaluate arithmetic invoke bindings
    write value
    runSentences invoke bindings rest
  | bindings, _ :: rest => runSentences invoke bindings rest

end Node

def Tree.run (tree : Tree) (depth : Nat) (inputs : List Int) :
    Except (Stop ε) Unit × Channel :=
  let sentences := Program.sentencesOf tree.root
  let definitions := sentences.filter (·.symbol == .functionDef)
  outcome (Node.runSentences arithmetic (Node.invoke arithmetic definitions depth) [] sentences)
    inputs

end RomanScript
