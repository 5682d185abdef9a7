import RomanScript.Proofs.Numeral
import RomanScript.Proofs.Program.Lowered

/-!
# Programs are valid

What is lowered obeys the static rules of the language, whether its tree was parsed or made by hand:
names are not defined twice, variables are in scope, calls have as many arguments as the function
has parameters, and literals are numbers that can be written.
-/

namespace RomanScript

namespace Expression

mutual

def parts : Expression → List Expression
  | literal value => [literal value]
  | .variable name => [.variable name]
  | input => [input]
  | unary operator operand => unary operator operand :: parts operand
  | binary operator left right => binary operator left right :: (parts left ++ parts right)
  | conditional condition consequence alternative =>
    conditional condition consequence alternative ::
      (parts condition ++ (parts consequence ++ parts alternative))
  | call name arguments => call name arguments :: partsOfAll arguments

def partsOfAll : List Expression → List Expression
  | [] => []
  | first :: rest => parts first ++ partsOfAll rest

end

section Parts

variable {operator : Operator} {condition left right : Expression} {arguments : List Expression}
    {name : String} {value : Int}

@[simp] theorem parts_literal : (literal value).parts = [literal value] := rfl

@[simp] theorem parts_variable : (Expression.variable name).parts = [.variable name] := rfl

@[simp] theorem parts_input : input.parts = [input] := rfl

@[simp] theorem parts_unary :
    (unary operator right).parts = unary operator right :: right.parts := rfl

@[simp] theorem parts_binary :
    (binary operator left right).parts =
      binary operator left right :: (left.parts ++ right.parts) := rfl

@[simp] theorem parts_conditional :
    (conditional condition left right).parts =
      conditional condition left right :: (condition.parts ++ (left.parts ++ right.parts)) := rfl

@[simp] theorem parts_call :
    (call name arguments).parts = call name arguments :: partsOfAll arguments := rfl

@[simp] theorem partsOfAll_nil : partsOfAll [] = [] := rfl

@[simp] theorem partsOfAll_cons :
    partsOfAll (left :: arguments) = left.parts ++ partsOfAll arguments := rfl

end Parts

/-- What one part of an expression has to be in a scope, beside functions of some signatures. -/
def Proper (signatures : Program.Signatures) (scope : List String) : Expression → Prop
  | literal value => 0 ≤ value ∧ value ≤ 3999
  | .variable name => name ∈ scope
  | call name arguments => (name, arguments.length) ∈ signatures
  | _ => True

end Expression

def Statement.declared? : Statement → Option String
  | declaration name _ => some name
  | output _ => none

@[simp] theorem Statement.declared?_declaration (name : String) (value : Expression) :
    (declaration name value).declared? = some name := rfl

@[simp] theorem Statement.declared?_output (value : Expression) :
    (output value).declared? = none := rfl

def Statement.value : Statement → Expression
  | declaration _ value => value
  | output value => value

namespace Program

def expressions (program : Program) : List Expression :=
  program.functions.map Function.body ++ program.statements.map Statement.value

/-- The static rules of the language. -/
structure Valid (program : Program) : Prop where
  functions : (program.functions.map Function.name).Nodup
  parameters : ∀ function ∈ program.functions, function.parameters.Nodup
  declarations : (program.statements.filterMap Statement.declared?).Nodup
  disjoint : ∀ name ∈ program.statements.filterMap Statement.declared?,
    name ∉ program.functions.map Function.name
  bodies : ∀ function ∈ program.functions, ∀ name,
    .variable name ∈ function.body.parts → name ∈ function.parameters
  values : ∀ before statement behind, program.statements = before ++ statement :: behind →
    ∀ name, .variable name ∈ statement.value.parts → name ∈ before.filterMap Statement.declared?
  calls : ∀ expression ∈ program.expressions, ∀ name arguments,
    .call name arguments ∈ expression.parts →
      ∃ function ∈ program.functions, function.name = name ∧ function.arity = arguments.length
  literals : ∀ expression ∈ program.expressions, ∀ value,
    .literal value ∈ expression.parts → 0 ≤ value ∧ value ≤ 3999

variable {path : Option String} {signatures : Signatures} {scope : List String}

def Sound (signatures : Signatures) (scope : List String) (expression : Expression) : Prop :=
  ∀ part ∈ expression.parts, part.Proper signatures scope

def SoundAll (signatures : Signatures) (scope : List String) (expressions : List Expression) :
    Prop :=
  ∀ part ∈ Expression.partsOfAll expressions, part.Proper signatures scope

section Sound

variable {operator : Operator} {condition left right : Expression} {arguments : List Expression}
    {name : String} {value : Int}

@[simp] theorem sound_literal :
    Sound signatures scope (.literal value) ↔ 0 ≤ value ∧ value ≤ 3999 := by
  simp [Sound, Expression.Proper]

@[simp] theorem sound_variable : Sound signatures scope (.variable name) ↔ name ∈ scope := by
  simp [Sound, Expression.Proper]

@[simp] theorem sound_input : Sound signatures scope .input := by
  simp [Sound, Expression.Proper]

@[simp] theorem sound_unary :
    Sound signatures scope (.unary operator right) ↔ Sound signatures scope right := by
  simp [Sound, Expression.Proper]

@[simp] theorem sound_binary :
    Sound signatures scope (.binary operator left right) ↔
      Sound signatures scope left ∧ Sound signatures scope right := by
  simp [Sound, Expression.Proper, or_imp, forall_and]

@[simp] theorem sound_conditional :
    Sound signatures scope (.conditional condition left right) ↔
      Sound signatures scope condition ∧ Sound signatures scope left ∧
        Sound signatures scope right := by
  simp [Sound, Expression.Proper, or_imp, forall_and]

@[simp] theorem sound_call :
    Sound signatures scope (.call name arguments) ↔
      (name, arguments.length) ∈ signatures ∧ SoundAll signatures scope arguments := by
  simp [Sound, SoundAll, Expression.Proper]

@[simp] theorem soundAll_nil : SoundAll signatures scope [] := by
  simp [SoundAll]

@[simp] theorem soundAll_cons :
    SoundAll signatures scope (left :: arguments) ↔
      Sound signatures scope left ∧ SoundAll signatures scope arguments := by
  simp [Sound, SoundAll, or_imp, forall_and]

end Sound

private theorem sound_lowerName
    {name : Node} {expression : Expression}
    (lowered : lowerName path signatures scope name = .ok expression) :
    Sound signatures scope expression := by
  unfold lowerName at lowered
  split_ifs at lowered with inScope isFunction
  · cases lowered
    exact sound_variable.mpr (List.contains_iff_mem.mp inScope)
  · obtain ⟨_, ⟨⟩, known, rfl⟩ := exists_of_lowerCall lowered
    exact sound_call.mpr ⟨mem_of_lookup known, soundAll_nil⟩
  · cases lowered

private theorem sound_lowerSimple
    {node : Node} {expression : Expression}
    (lowered : lowerSimple path signatures scope node = .ok expression) :
    Sound signatures scope expression := by
  unfold lowerSimple at lowered
  split at lowered
  · split at lowered
    · rename_i value isValue
      cases lowered
      exact sound_literal.mpr (Numeral.value?_range isValue)
    · cases lowered
  · cases lowered
    exact sound_input
  · exact sound_lowerName lowered
  all_goals cases lowered

private theorem sound_lower_and_lowerAll :
    (∀ node expression, lower path signatures scope node = .ok expression →
      Sound signatures scope expression) ∧
    ∀ nodes expressions, lowerAll path signatures scope nodes = .ok expressions →
      SoundAll signatures scope expressions := by
  apply lowered_induction
  case binary =>
    intro _ _ _ _ _ _ _ _ _ _ _ _ _ soundLeft soundRight
    exact sound_binary.mpr ⟨soundLeft, soundRight⟩
  case signed =>
    intro _ _ _ _ _ _ _ _ _ soundOperand
    exact sound_unary.mpr soundOperand
  case group =>
    intro _ _ _ _ _ _ _ _ soundInner
    exact soundInner
  case conditional =>
    intro _ _ _ _ _ _ _ _ _ _ _ soundCondition soundConsequence soundAlternative
    exact sound_conditional.mpr ⟨soundCondition, soundConsequence, soundAlternative⟩
  case call =>
    intro _ _ _ _ _ _ _ known soundArguments
    exact sound_call.mpr ⟨mem_of_lookup known, soundArguments⟩
  case simple =>
    intro _ _ _ lowered
    exact sound_lowerSimple lowered
  case nil => exact soundAll_nil
  case cons =>
    intro _ _ _ _ soundFirst soundRest
    exact soundAll_cons.mpr ⟨soundFirst, soundRest⟩

/-- Every part of an expression that a node is lowered to is proper. -/
theorem sound_lower
    {node : Node} {expression : Expression}
    (lowered : lower path signatures scope node = .ok expression) :
    Sound signatures scope expression :=
  sound_lower_and_lowerAll.1 node expression lowered

section Statements

variable {declared : List String} {bodies : List Node} {statements : List Statement}
    (states : States path signatures declared bodies statements)

include states

/-- No variable is declared twice, or under the name of a function. -/
theorem declared_of_states :
    (statements.filterMap Statement.declared?).Nodup ∧
      ∀ name ∈ statements.filterMap Statement.declared?,
        name ∉ declared ∧ name ∉ signatures.map (·.1) := by
  induction states with
  | done => exact ⟨.nil, nofun⟩
  | @declaration declared _ name _ value _ rest _ _ _ notFunction fresh _ _ inductionHypothesis =>
      obtain ⟨distinct, others⟩ := inductionHypothesis
      have later : ∀ other ∈ rest.filterMap Statement.declared?,
          other ∉ declared ∧ other ≠ name.text ∧ other ∉ signatures.map (·.1) := by
        intro other member
        have apart := others other member
        rw [List.mem_append, List.mem_singleton, not_or] at apart
        exact ⟨apart.1.1, apart.1.2, apart.2⟩
      have notLater : name.text ∉ rest.filterMap Statement.declared? :=
        fun member => (later _ member).2.1 rfl
      rw [List.filterMap_cons_some (Statement.declared?_declaration name.text value)]
      constructor
      · exact List.nodup_cons.mpr ⟨notLater, distinct⟩
      · intro other member
        rcases List.mem_cons.mp member with rfl | member
        · exact ⟨fresh, notFunction⟩
        · exact ⟨(later other member).1, (later other member).2.2⟩
  | output _ _ _ _ inductionHypothesis =>
      rwa [List.filterMap_cons_none (Statement.declared?_output _)]
  | other _ _ _ inductionHypothesis => exact inductionHypothesis

/-- A statement sees the variables that the statements before it declare. -/
theorem sound_of_states
    {before behind : List Statement} {statement : Statement}
    (split : statements = before ++ statement :: behind) :
    Sound signatures (declared ++ before.filterMap Statement.declared?) statement.value := by
  -- Behind a declaration its name is in scope, and the statement is one of those before.
  induction states generalizing before with
  | done => simp at split
  | @declaration declared _ name _ value _ rest _ _ _ _ _ lowered _ inductionHypothesis =>
      cases before with
      | nil =>
          cases split
          rw [List.filterMap_nil, List.append_nil]
          exact sound_lower lowered
      | cons first others =>
          cases split
          have sound := inductionHypothesis rfl
          rwa [List.append_assoc] at sound
  | output _ _ lowered _ inductionHypothesis =>
      cases before with
      | nil =>
          cases split
          rw [List.filterMap_nil, List.append_nil]
          exact sound_lower lowered
      | cons first others =>
          cases split
          have sound := inductionHypothesis rfl
          exact sound
  | other _ _ _ inductionHypothesis => exact inductionHypothesis split

end Statements

theorem mem_signatures {program : Program} {name : String} {arity : Nat} :
    (name, arity) ∈ program.signatures ↔
      ∃ function ∈ program.functions, function.name = name ∧ function.arity = arity := by
  simp [Program.signatures]

/-- The body of a function sees its parameters alone. -/
theorem sound_of_defines
    {definitions : List Node} {functions : List Function}
    (defines : List.Forall₂ (Defines path signatures) definitions functions) :
    ∀ function ∈ functions, Sound signatures function.parameters function.body ∧
      function.parameters.Nodup := by
  induction defines with
  | nil => exact nofun
  | cons define _ inductionHypothesis =>
      obtain ⟨_, _, lowered⟩ := define.body
      exact List.forall_mem_cons.mpr ⟨⟨sound_lower lowered, define.distinct⟩, inductionHypothesis⟩

section Comes

variable {root : Node} {bodies : List Node} {program : Program}
    (comes : Comes path root bodies program)

include comes

private theorem sound_value
    {before behind : List Statement} {statement : Statement}
    (split : program.statements = before ++ statement :: behind) :
    Sound program.signatures (before.filterMap Statement.declared?) statement.value := by
  have sound := sound_of_states comes.statements split
  rwa [List.nil_append] at sound

private theorem exists_scope
    {expression : Expression} (member : expression ∈ program.expressions) :
    ∃ scope, Sound program.signatures scope expression := by
  rcases List.mem_append.mp member with inFunctions | inStatements
  · obtain ⟨function, isFunction, rfl⟩ := List.mem_map.mp inFunctions
    exact ⟨_, (sound_of_defines comes.functions function isFunction).1⟩
  · obtain ⟨statement, isStatement, rfl⟩ := List.mem_map.mp inStatements
    obtain ⟨before, behind, split⟩ := List.append_of_mem isStatement
    exact ⟨_, sound_value comes split⟩

theorem valid_of_comes : program.Valid where
  functions := comes.distinct
  parameters function member := (sound_of_defines comes.functions function member).2
  declarations := (declared_of_states comes.statements).1
  disjoint name member := by
    have apart := ((declared_of_states comes.statements).2 name member).2
    rwa [map_fst_signatures] at apart
  bodies function member name inBody :=
    (sound_of_defines comes.functions function member).1 (.variable name) inBody
  values before statement behind split name inValue :=
    sound_value comes split (.variable name) inValue
  calls expression member name arguments inExpression := by
    obtain ⟨scope, sound⟩ := exists_scope comes member
    exact mem_signatures.mp (sound (.call name arguments) inExpression)
  literals expression member value inExpression := by
    obtain ⟨scope, sound⟩ := exists_scope comes member
    exact sound (.literal value) inExpression

end Comes

/-! ## Order -/

/-- The statement of a node, beside functions of some signatures. -/
def Stated (path : Option String) (signatures : Signatures) (node : Node) : Statement → Prop
  | .declaration name value => node.symbol = .variableDecl ∧ ∃ nameNode valueNode scope,
      node.children[1]? = some nameNode ∧ name = nameNode.text ∧
        node.children[3]? = some valueNode ∧ lower path signatures scope valueNode = .ok value
  | .output value => node.symbol = .outputStmt ∧ ∃ valueNode scope,
      node.children[1]? = some valueNode ∧ lower path signatures scope valueNode = .ok value

private theorem forall₂_stated_of_states
    {declared : List String} {bodies : List Node} {statements : List Statement}
    (states : States path signatures declared bodies statements) :
    List.Forall₂ (Stated path signatures)
      (bodies.filter fun body => body.symbol == .variableDecl || body.symbol == .outputStmt)
      statements := by
  induction states with
  | done => exact .nil
  | declaration isDeclaration name value _ _ lowered _ inductionHypothesis =>
      rw [List.filter_cons_of_pos (by simp [isDeclaration])]
      exact .cons ⟨isDeclaration, _, _, _, name, rfl, value, lowered⟩ inductionHypothesis
  | output isOutput value lowered _ inductionHypothesis =>
      rw [List.filter_cons_of_pos (by simp [isOutput])]
      exact .cons ⟨isOutput, _, _, value, lowered⟩ inductionHypothesis
  | other notDeclaration notOutput _ inductionHypothesis =>
      rwa [List.filter_cons_of_neg (by simp [notDeclaration, notOutput])]

/-- The functions of a program come one by one from the definitions of a tree, and its statements
from the declarations and outputs, in the order in which the nodes stand there. -/
def FollowsSource (path : Option String) (root : Node) (program : Program) : Prop :=
  ∃ bodies,
    List.Forall₂ (fun statement body => statement.children[0]? = some body) root.statements bodies ∧
      List.Forall₂ (Defines path program.signatures) (bodies.filter (·.symbol == .functionDef))
        program.functions ∧
      List.Forall₂ (Stated path program.signatures)
        (bodies.filter fun body => body.symbol == .variableDecl || body.symbol == .outputStmt)
        program.statements

/-- What any tree is lowered to is a valid program in the order of the tree. -/
theorem valid_of_ofNode
    {root : Node} {program : Program} (lowered : ofNode path root = .ok program) :
    program.Valid ∧ program.FollowsSource path root := by
  obtain ⟨bodies, comes⟩ := comes_of_ok lowered
  exact ⟨valid_of_comes comes, bodies, comes.first, comes.functions,
    forall₂_stated_of_states comes.statements⟩

/-- A function, a variable, and the output of a call of the one with the other. -/
def oneCallRoot : Node :=
  .rule .program
    [.rule .statement [.rule .functionDef
      [.leaf ⟨.keyword .define, "Munus", 1, 0⟩, .leaf ⟨.identifier, "f", 1, 6⟩,
        .leaf ⟨.identifier, "n", 1, 8⟩, .leaf ⟨.equals, "=", 1, 10⟩,
        .leaf ⟨.identifier, "n", 1, 12⟩]],
    .rule .statement [.rule .variableDecl
      [.leaf ⟨.keyword .declare, "As", 2, 0⟩, .leaf ⟨.identifier, "x", 2, 3⟩,
        .leaf ⟨.equals, "=", 2, 5⟩, .leaf ⟨.numeral, "IV", 2, 7⟩]],
    .rule .statement [.rule .outputStmt
      [.leaf ⟨.keyword .output, "Grafo", 3, 0⟩,
        .rule .call [.leaf ⟨.identifier, "f", 3, 6⟩, .leaf ⟨.identifier, "x", 3, 8⟩]]],
    .leaf ⟨.endOfText, "", 3, 9⟩]

def oneCall : Program where
  functions := [⟨"f", ["n"], .variable "n"⟩]
  statements := [.declaration "x" (.literal 4), .output (.call "f" [.variable "x"])]

theorem valid_of_ofNode_oneCallRoot :
    ofNode none oneCallRoot = .ok oneCall ∧ oneCall.Valid ∧
      oneCall.FollowsSource none oneCallRoot := by
  have lowered : ofNode none oneCallRoot = .ok oneCall := by rfl
  exact ⟨lowered, valid_of_ofNode lowered⟩

end Program

end RomanScript
