import RomanScript.Failure
import RomanScript.Json

/-!
Programs: functions and the statements of the main text, all names resolved. Programs are compared
by structure and written as JSON.
-/

namespace RomanScript

inductive Operator where
  | add
  | sub
  | mul
  | div
  deriving DecidableEq, Repr

namespace Operator

def name : Operator → String
  | add => "ADD"
  | sub => "SUB"
  | mul => "MUL"
  | div => "DIV"

def ofSign : String → Except Misuse Operator
  | "+" => .ok add
  | "-" => .ok sub
  | "*" => .ok mul
  | "/" => .ok div
  | sign => .error (.noOperator sign)

end Operator

/-- An expression: a number, a variable, a number read from the input, an operation, a choice by a
zero test, or a call. -/
inductive Expression where
  | literal (value : Int)
  | variable (name : String)
  | input
  | unary (operator : Operator) (operand : Expression)
  | binary (operator : Operator) (left right : Expression)
  | conditional (condition consequence alternative : Expression)
  | call (name : String) (arguments : List Expression)
  deriving Repr

inductive Statement where
  | declaration (name : String) (value : Expression)
  | output (value : Expression)
  deriving Repr

structure Function where
  name : String
  parameters : List String
  body : Expression
  deriving Repr

def Function.arity (function : Function) : Nat :=
  function.parameters.length

structure Program where
  functions : List Function
  statements : List Statement
  deriving Repr

def Program.function? (program : Program) (name : String) : Option Function :=
  program.functions.find? (·.name == name)

namespace Expression

mutual

def same : Expression → Expression → Bool
  | literal value, literal value' => value == value'
  | .variable name, .variable name' => name == name'
  | input, input => true
  | unary operator operand, unary operator' operand' =>
    operator == operator' && same operand operand'
  | binary operator left right, binary operator' left' right' =>
    operator == operator' && same left left' && same right right'
  | conditional condition consequence alternative,
      conditional condition' consequence' alternative' =>
    same condition condition' && same consequence consequence' && same alternative alternative'
  | call name arguments, call name' arguments' => name == name' && sameAll arguments arguments'
  | _, _ => false

def sameAll : List Expression → List Expression → Bool
  | [], [] => true
  | first :: rest, first' :: rest' => same first first' && sameAll rest rest'
  | _, _ => false

end

end Expression

def Statement.same : Statement → Statement → Bool
  | declaration name value, declaration name' value' => name == name' && value.same value'
  | output value, output value' => value.same value'
  | _, _ => false

def Function.same (left right : Function) : Bool :=
  left.name == right.name && left.parameters == right.parameters && left.body.same right.body

/-- Whether two lists are equally long and `same` holds place by place. -/
def sameList {α : Type} (same : α → α → Bool) : List α → List α → Bool
  | [], [] => true
  | first :: rest, first' :: rest' => same first first' && sameList same rest rest'
  | _, _ => false

def Program.same (left right : Program) : Bool :=
  sameList Function.same left.functions right.functions &&
    sameList Statement.same left.statements right.statements

namespace Expression

mutual

def toJson : Expression → Json
  | literal value => .object [("type", .string "literal"), ("value", .number value)]
  | .variable name => .object [("type", .string "variable"), ("name", .string name)]
  | input => .object [("type", .string "input")]
  | unary operator operand =>
    .object [("type", .string "unary"), ("op", .string operator.name),
      ("operand", toJson operand)]
  | binary operator left right =>
    .object [("type", .string "binary"), ("op", .string operator.name),
      ("left", toJson left), ("right", toJson right)]
  | conditional condition consequence alternative =>
    .object [("type", .string "conditional"), ("condition", toJson condition),
      ("then", toJson consequence), ("else", toJson alternative)]
  | call name arguments =>
    .object [("type", .string "call"), ("name", .string name),
      ("args", .array (toJsonAll arguments))]

def toJsonAll : List Expression → List Json
  | [] => []
  | first :: rest => toJson first :: toJsonAll rest

end

end Expression

def Statement.toJson : Statement → Json
  | declaration name value =>
    .object [("type", .string "declaration"), ("name", .string name), ("value", value.toJson)]
  | output value => .object [("type", .string "output"), ("value", value.toJson)]

def Function.toJson (function : Function) : Json :=
  .object [("name", .string function.name),
    ("params", .array (function.parameters.map .string)),
    ("body", function.body.toJson)]

def Program.toJson (program : Program) : Json :=
  .object [("functions", .array (program.functions.map Function.toJson)),
    ("statements", .array (program.statements.map Statement.toJson))]

end RomanScript
