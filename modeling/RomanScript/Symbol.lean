import RomanScript.Keyword

/-!
Grammar symbols. Tokens carry a terminal symbol and the inner nodes of a syntax tree the symbol of
the rule that made them; both may also carry a name that the grammar does not know.
-/

namespace RomanScript

/-- The symbols of the grammar: its terminals, its rules, and names foreign to it. -/
inductive Symbol where
  | keyword (word : Keyword)
  | plus
  | minus
  | times
  | divide
  | equals
  | openParen
  | closeParen
  | numeral
  | identifier
  | endOfText
  | program
  | statement
  | functionDef
  | variableDecl
  | outputStmt
  | sum
  | product
  | signed
  | call
  | conditional
  | group
  | foreign (name : String)
  deriving DecidableEq, Repr

namespace Symbol

def name : Symbol → String
  | keyword word => word.name
  | plus => "PLUS"
  | minus => "MINUS"
  | times => "MULT"
  | divide => "DIV"
  | equals => "EQUALS"
  | openParen => "LPAREN"
  | closeParen => "RPAREN"
  | numeral => "ROMAN"
  | identifier => "IDENTIFIER"
  | endOfText => "EOF"
  | program => "program"
  | statement => "statement"
  | functionDef => "functionDef"
  | variableDecl => "variableDecl"
  | outputStmt => "outputStmt"
  | sum => "addExpr"
  | product => "mulExpr"
  | signed => "unaryExpr"
  | call => "funcCall"
  | conditional => "conditional"
  | group => "parenExpr"
  | foreign name => name

def terminals : List Symbol :=
  Keyword.all.map keyword ++
    [plus, minus, times, divide, equals, openParen, closeParen, numeral, identifier, endOfText]

def rules : List Symbol :=
  [program, statement, functionDef, variableDecl, outputStmt,
    sum, product, signed, call, conditional, group]

/-- The symbol of a given name; a name that the grammar does not know stands for itself. -/
def ofName (name : String) : Symbol :=
  ((terminals ++ rules).find? (·.name == name)).getD (foreign name)

/-- Reading a symbol's own name gives the symbol back, unless the name is foreign. -/
theorem ofName_name {symbol : Symbol} (known : symbol ∈ terminals ++ rules) :
    ofName symbol.name = symbol := by
  simp only [terminals, rules, Keyword.all, List.map_cons, List.map_nil, List.cons_append,
    List.nil_append, List.mem_cons, List.not_mem_nil, or_false] at known
  rcases known with rfl | rfl | rfl | rfl | rfl | rfl | rfl | rfl | rfl | rfl | rfl | rfl | rfl |
    rfl | rfl | rfl | rfl | rfl | rfl | rfl | rfl | rfl | rfl | rfl | rfl | rfl <;> rfl

end Symbol

end RomanScript
