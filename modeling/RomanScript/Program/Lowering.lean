import RomanScript.Node
import RomanScript.Numeral
import RomanScript.Program

/-!
From a syntax tree to a program. Functions are known everywhere, also before their definition, and
see only their own parameters; a statement of the main text sees the variables declared before it.
The first name that breaks a rule is reported.
-/

namespace RomanScript.Program

/-- The functions of a text, each with the number of its parameters, in the order of their
definitions. -/
abbrev Signatures := List (String × Nat)

/-- A problem with the name that a node stands for. -/
def refuse {α : Type} (path : Option String) (problem : Problem) (name : Node) :
    Except Failure α :=
  .error (.diagnostic ⟨problem, name.line, name.column, path⟩)

def childAt (node : Node) (index : Nat) : Except Failure Node :=
  match node.children[index]? with
  | some child => .ok child
  | none => .error (.misuse .missingChild)

def lastChild (node : Node) : Except Failure Node :=
  match node.children.getLast? with
  | some child => .ok child
  | none => .error (.misuse .missingChild)

def operatorOf (node : Node) : Except Failure Operator :=
  match node.symbol with
  | .plus => .ok .add
  | .minus => .ok .sub
  | .times => .ok .mul
  | .divide => .ok .div
  | symbol => .error (.misuse (.unknownOperator symbol.name))

section Expressions

variable (path : Option String) (signatures : Signatures) (scope : List String)

/-- A call of the function that `callee` names; the arguments matter only once the function is
known, and their number only once they are in order. -/
def lowerCall (callee : Node) (arguments : Except Failure (List Expression)) :
    Except Failure Expression :=
  match signatures.lookup callee.text with
  | none => refuse path (.functionUndefined callee.text) callee
  | some arity => do
    let arguments ← arguments
    if arguments.length = arity then return .call callee.text arguments
    else refuse path (.arityMismatch callee.text arity arguments.length) callee

/-- A name by itself is a variable in scope, or else a call without arguments. -/
def lowerName (name : Node) : Except Failure Expression :=
  if scope.contains name.text then .ok (.variable name.text)
  else if (signatures.lookup name.text).isSome then lowerCall path signatures name (.ok [])
  else refuse path (.variableUndefined name.text) name

/-- A node that has no expressions below it, or not as many as its rule asks for. -/
def lowerSimple (node : Node) : Except Failure Expression :=
  match node.symbol with
  | .numeral =>
    match Numeral.value? node.text with
    | some value => .ok (.literal value)
    | none => .error (.misuse (.malformedNumeral node.text))
  | .keyword .input => .ok .input
  | .identifier => lowerName path signatures scope node
  | .sum | .product => .error (.misuse (.childCount 3 node.children.length))
  | .signed => .error (.misuse (.childCount 2 node.children.length))
  | .conditional => .error (.misuse (.childCount 4 node.children.length))
  | .group | .call => .error (.misuse .missingChild)
  | symbol => .error (.misuse (.unexpectedNode symbol.name node.line node.column))

mutual

def lower : Node → Except Failure Expression
  | .branch .sum _ _ _ _ [left, operator, right]
  | .branch .product _ _ _ _ [left, operator, right] => do
    let operator ← operatorOf operator
    let left ← lower left
    let right ← lower right
    return .binary operator left right
  | .branch .signed _ _ _ _ [sign, operand] => do
    let operator ← operatorOf sign
    let operand ← lower operand
    return .unary operator operand
  | .branch .group _ _ _ _ (_ :: inner :: _) => lower inner
  | .branch .conditional _ _ _ _ [_, condition, consequence, alternative] => do
    let condition ← lower condition
    let consequence ← lower consequence
    let alternative ← lower alternative
    return .conditional condition consequence alternative
  | .branch .call _ _ _ _ (callee :: arguments) =>
    lowerCall path signatures callee (lowerAll arguments)
  | node => lowerSimple path signatures scope node

/-- The expressions of several nodes, up to the first that has none. -/
def lowerAll : List Node → Except Failure (List Expression)
  | [] => .ok []
  | node :: rest => do
    let first ← lower node
    let rest ← lowerAll rest
    return first :: rest

end

end Expressions

/-- The nodes of the parameters of a definition, which stand between its name and the sign before
its body. -/
def parameterNodes (definition : Node) : List Node :=
  (definition.children.drop 2).take (definition.children.length - 4)

/-- The signatures of the definitions, added to those already found; no name is defined twice. -/
def signaturesFrom (path : Option String) : Signatures → List Node → Except Failure Signatures
  | found, [] => .ok found
  | found, definition :: rest => do
    let name ← childAt definition 1
    if (found.lookup name.text).isSome then refuse path (.functionRedefined name.text) name
    else signaturesFrom path (found ++ [(name.text, (parameterNodes definition).length)]) rest

/-- The names of parameters, added to those already found; no name is repeated. -/
def parametersFrom (path : Option String) : List String → List Node → Except Failure (List String)
  | found, [] => .ok found
  | found, parameter :: rest =>
    if found.contains parameter.text then refuse path (.parameterRepeated parameter.text) parameter
    else parametersFrom path (found ++ [parameter.text]) rest

def lowerFunction (path : Option String) (signatures : Signatures) (definition : Node) :
    Except Failure Function := do
  let parameters ← parametersFrom path [] (parameterNodes definition)
  let bodyNode ← lastChild definition
  let body ← lower path signatures parameters bodyNode
  let name ← childAt definition 1
  return ⟨name.text, parameters, body⟩

def lowerFunctions (path : Option String) (signatures : Signatures) :
    List Node → Except Failure (List Function)
  | [] => .ok []
  | definition :: rest => do
    let first ← lowerFunction path signatures definition
    let rest ← lowerFunctions path signatures rest
    return first :: rest

/-- The statements of the main text, of which each sees the variables `declared` before it; nodes
of other kinds are passed over. -/
def lowerStatements (path : Option String) (signatures : Signatures) :
    List String → List Node → Except Failure (List Statement)
  | _, [] => .ok []
  | declared, node :: rest =>
    match node.symbol with
    | .variableDecl => do
      let name ← childAt node 1
      if (signatures.lookup name.text).isSome then refuse path (.functionRedefined name.text) name
      else if declared.contains name.text then
        refuse path (.variableRedefined name.text) name
      else
        let valueNode ← childAt node 3
        let value ← lower path signatures declared valueNode
        let rest ← lowerStatements path signatures (declared ++ [name.text]) rest
        return .declaration name.text value :: rest
    | .outputStmt => do
      let valueNode ← childAt node 1
      let value ← lower path signatures declared valueNode
      let rest ← lowerStatements path signatures declared rest
      return .output value :: rest
    | _ => lowerStatements path signatures declared rest

/-- What the statements of a program consist of: the first child of each. -/
def statementBodies : List Node → Except Failure (List Node)
  | [] => .ok []
  | statement :: rest => do
    let first ← childAt statement 0
    let rest ← statementBodies rest
    return first :: rest

/-- The program of a syntax tree, whose nodes came from the text at `path`. -/
def ofNode (path : Option String) (root : Node) : Except Failure Program := do
  let bodies ← statementBodies root.statements
  let definitions := bodies.filter (·.symbol == .functionDef)
  let signatures ← signaturesFrom path [] definitions
  let functions ← lowerFunctions path signatures definitions
  let statements ← lowerStatements path signatures [] bodies
  return ⟨functions, statements⟩

def ofTree (tree : Tree) : Except Failure Program :=
  ofNode tree.path tree.root

end RomanScript.Program
