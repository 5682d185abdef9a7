import RomanScript.Failure

/-!
Syntax trees. A leaf is a token; a branch carries the symbol of its rule, and besides its children
the text, place and height that the rule gave it.
-/

namespace RomanScript

/-- A node of a syntax tree. The height of a branch is a record and not computed from its
children. -/
inductive Node where
  | leaf (token : Token)
  | branch (symbol : Symbol) (text : String) (line column : Int) (height : Nat)
      (children : List Node)
  deriving Repr

namespace Node

def symbol : Node → Symbol
  | leaf token => token.symbol
  | branch symbol _ _ _ _ _ => symbol

def text : Node → String
  | leaf token => token.text
  | branch _ text _ _ _ _ => text

def line : Node → Int
  | leaf token => token.line
  | branch _ _ line _ _ _ => line

def column : Node → Int
  | leaf token => token.column
  | branch _ _ _ column _ _ => column

/-- The recorded height; a leaf has height one. -/
def height : Node → Nat
  | leaf _ => 1
  | branch _ _ _ _ height _ => height

def children : Node → List Node
  | leaf _ => []
  | branch _ _ _ _ _ children => children

def isLeaf : Node → Bool
  | leaf _ => true
  | branch _ _ _ _ _ _ => false

/-- A branch as a rule makes it: it begins where its first child begins, its text joins the texts
of its children, and it is one higher than the highest of them. -/
def rule (symbol : Symbol) (children : List Node) : Node :=
  branch symbol (String.join (children.map text))
    ((children.head?.map line).getD 1) ((children.head?.map column).getD 0)
    (1 + (children.map height).foldl max 0) children

/-- A branch that a rule makes of some children; there is none without children. -/
def rule? (symbol : Symbol) (children : List Node) : Except Misuse Node :=
  if children.isEmpty then .error .missingChild else .ok (rule symbol children)

mutual

/-- A node and all nodes below it, every node before its children. -/
def walk : Node → List Node
  | leaf token => [leaf token]
  | branch symbol text line column height children =>
    branch symbol text line column height children :: walkAll children

def walkAll : List Node → List Node
  | [] => []
  | node :: rest => walk node ++ walkAll rest

end

def find? (node : Node) (symbol : Symbol) : Option Node :=
  node.walk.find? (·.symbol == symbol)

def statements (node : Node) : List Node :=
  node.children.filter (·.symbol == .statement)

mutual

/-- One line for every node of a walk, indented by its distance from the top. -/
def lines (indent : Nat) : Node → List String
  | leaf token =>
    [String.join (List.replicate indent "  ") ++ token.symbol.name ++ " " ++
      Text.quoted token.text ++ " " ++ Token.placeMark token.line token.column]
  | branch symbol _ line column _ children =>
    (String.join (List.replicate indent "  ") ++ symbol.name ++ " " ++
      Token.placeMark line column) :: linesOfAll (indent + 1) children

def linesOfAll (indent : Nat) : List Node → List String
  | [] => []
  | node :: rest => lines indent node ++ linesOfAll indent rest

end

/-- The listing of a node, indented as a whole by `indent` steps. -/
def listing (node : Node) (indent : Nat) : String :=
  String.intercalate "\n" (node.lines indent)

mutual

/-- Two nodes agree when they differ at most in the recorded heights. -/
def agrees : Node → Node → Bool
  | leaf left, leaf right => left == right
  | branch symbol text line column _ children, branch symbol' text' line' column' _ children' =>
    symbol == symbol' && text == text' && line == line' && column == column' &&
      agreeAll children children'
  | _, _ => false

def agreeAll : List Node → List Node → Bool
  | [], [] => true
  | left :: lefts, right :: rights => agrees left right && agreeAll lefts rights
  | _, _ => false

end

mutual

def decideEq : (left right : Node) → Decidable (left = right)
  | leaf left, leaf right => decidable_of_iff (left = right) (by simp)
  | branch symbol text line column height children,
      branch symbol' text' line' column' height' children' =>
    have := decideEqAll children children'
    decidable_of_iff (symbol = symbol' ∧ text = text' ∧ line = line' ∧ column = column' ∧
      height = height' ∧ children = children') (by simp)
  | leaf _, branch _ _ _ _ _ _ => isFalse (by simp)
  | branch _ _ _ _ _ _, leaf _ => isFalse (by simp)

def decideEqAll : (left right : List Node) → Decidable (left = right)
  | [], [] => isTrue rfl
  | left :: lefts, right :: rights =>
    have := decideEq left right
    have := decideEqAll lefts rights
    decidable_of_iff (left = right ∧ lefts = rights) (by simp)
  | [], _ :: _ => isFalse (by simp)
  | _ :: _, [] => isFalse (by simp)

end

instance : DecidableEq Node :=
  decideEq

end Node

/-- The tree of a whole program, with the path of the text it was read from. -/
structure Tree where
  root : Node
  path : Option String
  deriving DecidableEq, Repr

def Tree.statements (tree : Tree) : List Node :=
  tree.root.statements

end RomanScript
