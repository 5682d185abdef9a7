import RomanScript.Proofs.Program.Writing
import RomanScript.Proofs.Reading.Acceptance
import RomanScript.Proofs.Reading.Grouped

/-!
# How programs in writing are read

The tokens of a program in writing, which stand at no particular place, and the tree that it is
meant to have. Both are built along with the program; the tokens are read to the tree, as every part
of an expression is in parentheses, and the limits are respected if no expression is too high.
-/

namespace RomanScript

open Grammar

def Token.unplaced (symbol : Symbol) (text : String) : Token :=
  ⟨symbol, text, 0, 0⟩

/-- Some tokens and the tree that they are meant to have. -/
abbrev Spelling := List Token × Node

namespace Spelling

def single (token : Token) : Spelling :=
  ([token], .leaf token)

def opening : Token := .unplaced .openParen "("

def closing : Token := .unplaced .closeParen ")"

def enclosed (inner : Spelling) : Spelling :=
  (opening :: inner.1 ++ [closing], .rule .group [.leaf opening, inner.2, .leaf closing])

def signed (sign : Token) (operand : Spelling) : Spelling :=
  (sign :: operand.1, .rule .signed [.leaf sign, operand.2])

def joined (tier : Tier) (operator : Token) (left right : Spelling) : Spelling :=
  (left.1 ++ operator :: right.1, .rule tier.symbol [left.2, .leaf operator, right.2])

def chosen (condition consequence alternative : Spelling) : Spelling :=
  (.unplaced (.keyword .choose) "Sinon" :: (condition.1 ++ (consequence.1 ++ alternative.1)),
    .rule .conditional
      [.leaf (.unplaced (.keyword .choose) "Sinon"), condition.2, consequence.2, alternative.2])

/-- A name with what it is applied to, or by itself. -/
def applied (callee : Token) (arguments : List Spelling) : Spelling :=
  if arguments.isEmpty then single callee
  else (callee :: arguments.flatMap (·.1), .rule .call (.leaf callee :: arguments.map (·.2)))

theorem applied_fst (callee : Token) (arguments : List Spelling) :
    (applied callee arguments).1 = callee :: arguments.flatMap (·.1) := by
  unfold applied
  split
  · rename_i isEmpty
    rw [List.isEmpty_iff.mp isEmpty]
    rfl
  · rfl

end Spelling

def Operator.symbol : Operator → Symbol
  | add => .plus
  | sub => .minus
  | mul => .times
  | div => .divide

def Operator.tier : Operator → Tier
  | add | sub => .sum
  | mul | div => .product

def Operator.token (operator : Operator) : Token :=
  .unplaced operator.symbol operator.sign

private theorem Operator.symbol_mem (operator : Operator) :
    operator.token.symbol ∈ operator.tier.operators := by
  cases operator <;> decide

mutual

def Expression.spelling : Expression → Spelling
  | literal value => .single (.unplaced .numeral (Numeral.ofNat value.toNat))
  | .variable name => .single (.unplaced .identifier name)
  | input => .single (.unplaced (.keyword .input) "Anagnosi")
  | unary operator operand => .signed operator.token (spelling operand).enclosed
  | binary operator left right =>
    .joined operator.tier operator.token (spelling left).enclosed (spelling right).enclosed
  | conditional condition consequence alternative =>
    .chosen (spelling condition).enclosed (spelling consequence).enclosed
      (spelling alternative).enclosed
  | call name arguments =>
    .applied (.unplaced .identifier name) (Expression.argumentSpellings arguments)

def Expression.argumentSpellings : List Expression → List Spelling
  | [] => []
  | first :: rest => (spelling first).enclosed :: Expression.argumentSpellings rest

end

theorem Expression.argumentSpellings_eq_map (arguments : List Expression) :
    argumentSpellings arguments = arguments.map fun argument => argument.spelling.enclosed := by
  induction arguments with
  | nil => rfl
  | cons first rest inductionHypothesis =>
      rw [argumentSpellings, inductionHypothesis, List.map_cons]

def Function.node (function : Function) : Node :=
  .rule .functionDef
    (.leaf (.unplaced (.keyword .define) "Munus") :: .leaf (.unplaced .identifier function.name) ::
      (function.parameters.map (.unplaced .identifier)).map .leaf ++
        [.leaf (.unplaced .equals "="), function.body.spelling.2])

def Function.spelling (function : Function) : Spelling :=
  (.unplaced (.keyword .define) "Munus" :: .unplaced .identifier function.name ::
      (function.parameters.map (.unplaced .identifier) ++
        .unplaced .equals "=" :: function.body.spelling.1),
    .rule .statement [function.node])

def Statement.node : Statement → Node
  | declaration name value =>
    .rule .variableDecl
      [.leaf (.unplaced (.keyword .declare) "As"), .leaf (.unplaced .identifier name),
        .leaf (.unplaced .equals "="), value.spelling.2]
  | output value =>
    .rule .outputStmt [.leaf (.unplaced (.keyword .output) "Grafo"), value.spelling.2]

def Statement.spelling (statement : Statement) : Spelling :=
  (match statement with
    | declaration name value =>
      .unplaced (.keyword .declare) "As" :: .unplaced .identifier name ::
        .unplaced .equals "=" :: value.spelling.1
    | output value => .unplaced (.keyword .output) "Grafo" :: value.spelling.1,
    .rule .statement [statement.node])

namespace Program

/-- The spellings of the functions and statements of a program, one for every line. -/
def spellings (program : Program) : List Spelling :=
  program.functions.map Function.spelling ++ program.statements.map Statement.spelling

def tokens (program : Program) : List Token :=
  program.spellings.flatMap (·.1) ++ [.unplaced .endOfText ""]

/-- The tree that a program in writing is meant to have. -/
def root (program : Program) : Node :=
  .rule .program (program.spellings.map (·.2) ++ [.leaf (.unplaced .endOfText "")])

end Program

namespace Spelling

variable {inner left right : Spelling}

private theorem readGroup_enclosed (read : ReadWhole inner.1 inner.2) :
    ReadGroup inner.enclosed.1 inner.enclosed.2 :=
  read.group rfl rfl

private theorem readWhole_single
    {token : Token} (isSimple : token.symbol ∈ [.numeral, .identifier, .keyword .input]) :
    ReadWhole (single token).1 (single token).2 :=
  (Read.simple isSimple).alone.unsigned.expression_of_signed.whole

private theorem readWhole_signed
    {sign : Token} (isSign : sign.symbol ∈ [.plus, .minus]) (read : ReadGroup inner.1 inner.2) :
    ReadWhole (signed sign inner).1 (signed sign inner).2 :=
  (Read.sign isSign read.alone.unsigned).expression_of_signed.whole

private theorem readWhole_joined
    {tier : Tier} {operator : Token} (operates : operator.symbol ∈ tier.operators)
    (readLeft : ReadGroup left.1 left.2) (readRight : ReadGroup right.1 right.2) :
    ReadWhole (joined tier operator left right).1 (joined tier operator left right).2 := by
  have operandLeft : Read tier.operandCategory left.1 left.2 :=
    readLeft.alone.unsigned.operandOf_signed tier
  have operandRight : Read tier.operandCategory right.1 right.2 :=
    readRight.alone.unsigned.operandOf_signed tier
  exact (operandLeft.operand.joined operates operandRight).expression_of_chain.whole

private theorem readWhole_applied
    {callee : Token} {arguments : List Spelling} (isName : callee.symbol = .identifier)
    (read : ∀ argument ∈ arguments, ReadGroup argument.1 argument.2) :
    ReadWhole (applied callee arguments).1 (applied callee arguments).2 := by
  unfold applied
  split
  · exact readWhole_single (by simp [isName])
  · rename_i nonempty
    have call : Read .term _ _ := .call isName (by simpa using nonempty) fun argument member =>
      (read argument member).toRead
    exact call.unsigned.expression_of_signed.whole

end Spelling

namespace Expression.Writable

variable {signatures : Program.Signatures} {scope : List String} {expression : Expression}

/-- The spelling of an expression that can be written is read as it was meant. -/
theorem readWhole (writable : expression.Writable signatures scope) :
    ReadWhole expression.spelling.1 expression.spelling.2 := by
  induction writable with
  | literal _ _ | named _ _ | input =>
      rw [spelling]
      exact Spelling.readWhole_single (by simp [Token.unplaced])
  | unary isSign _ inductionHypothesis =>
      rw [spelling]
      apply Spelling.readWhole_signed
      · rcases isSign with rfl | rfl <;> decide
      · exact Spelling.readGroup_enclosed inductionHypothesis
  | binary operator _ _ readLeft readRight =>
      rw [spelling]
      exact Spelling.readWhole_joined operator.symbol_mem (Spelling.readGroup_enclosed readLeft)
        (Spelling.readGroup_enclosed readRight)
  | conditional _ _ _ readCondition readConsequence readAlternative =>
      rw [spelling]
      exact .conditional rfl (Spelling.readGroup_enclosed readCondition)
        (Spelling.readGroup_enclosed readConsequence) (Spelling.readGroup_enclosed readAlternative)
  | call _ _ _ _ inductionHypothesis =>
      rw [spelling, argumentSpellings_eq_map]
      apply Spelling.readWhole_applied rfl
      rw [List.forall_mem_map]
      exact fun argument member => Spelling.readGroup_enclosed (inductionHypothesis argument member)

end Expression.Writable

/-- A node respects the limits at a level and is no higher than some bound. -/
structure Node.Low (bound level : Nat) (node : Node) : Prop where
  within : node.Within level
  height : node.height ≤ bound

namespace Node.Low

variable {bound level : Nat} {symbol : Symbol} {children : List Node}

private theorem leaf {token : Token} (deep : level ≤ nestingLimit) (high : 1 ≤ bound) :
    (Node.leaf token).Low bound level :=
  ⟨within_leaf deep, high⟩

/-- A rule adds at most one level and one to the height. -/
theorem rule
    (high : 1 ≤ bound) (deep : level + bound ≤ nestingLimit + 1)
    (low : ∀ child ∈ children, child.Low (bound - 1) (level + 1)) :
    (Node.rule symbol children).Low bound level := by
  have limits : nestingLimit + 1 ≤ heightLimit := by decide
  have height : (Node.rule symbol children).height ≤ bound - 1 + 1 :=
    rule_height_le fun child member => (low child member).height
  refine ⟨within_rule (by omega) (by omega) ?_, by omega⟩
  exact withinAll_of_deeper fun child member => (low child member).within

end Node.Low

namespace Expression

/-- The spelling of an expression is low where two levels are left for each step of the height. -/
def LowSpelled (expression : Expression) : Prop :=
  ∀ bound level, 2 * expression.height ≤ bound + 1 → level + bound ≤ nestingLimit + 1 →
    expression.spelling.2.Low bound level

variable {bound level : Nat}

/-- The parentheses around an expression take one of the two levels. -/
theorem LowSpelled.enclosed
    {expression : Expression} (low : expression.LowSpelled)
    (high : 2 * expression.height ≤ bound) (deep : level + bound ≤ nestingLimit + 1) :
    expression.spelling.enclosed.2.Low bound level := by
  have positive := expression.height_pos
  apply Node.Low.rule (by omega) deep
  simp only [List.forall_mem_cons]
  exact ⟨.leaf (by omega) (by omega), low _ _ (by omega) (by omega), .leaf (by omega) (by omega),
    List.forall_mem_nil _⟩

private theorem lowSpelled (expression : Expression) : expression.LowSpelled := by
  induction expression using induction with
  | literal | named | input =>
      intro bound level high deep
      rw [height] at high
      rw [spelling]
      exact .leaf (by omega) (by omega)
  | unary operator operand lowOperand =>
      intro bound level high deep
      have positive := operand.height_pos
      rw [height] at high
      rw [spelling]
      apply Node.Low.rule (by omega) deep
      simp only [List.forall_mem_cons]
      exact ⟨.leaf (by omega) (by omega), lowOperand.enclosed (by omega) (by omega),
        List.forall_mem_nil _⟩
  | binary operator left right lowLeft lowRight =>
      intro bound level high deep
      have positive := left.height_pos
      rw [height] at high
      rw [spelling]
      apply Node.Low.rule (by omega) deep
      simp only [List.forall_mem_cons]
      exact ⟨lowLeft.enclosed (by omega) (by omega), .leaf (by omega) (by omega),
        lowRight.enclosed (by omega) (by omega),
        List.forall_mem_nil _⟩
  | conditional condition consequence alternative low low' low'' =>
      intro bound level high deep
      have positive := condition.height_pos
      rw [height] at high
      rw [spelling]
      apply Node.Low.rule (by omega) deep
      simp only [List.forall_mem_cons]
      exact ⟨.leaf (by omega) (by omega), low.enclosed (by omega) (by omega),
        low'.enclosed (by omega) (by omega), low''.enclosed (by omega) (by omega),
        List.forall_mem_nil _⟩
  | call name arguments lowArguments =>
      intro bound level high deep
      rw [height] at high
      rw [spelling, argumentSpellings_eq_map, Spelling.applied]
      split
      · exact .leaf (by omega) (by omega)
      · rename_i nonempty
        obtain ⟨first, member⟩ := List.exists_mem_of_ne_nil arguments (by simpa using nonempty)
        have positive := first.height_pos
        have least := height_le_heightOfAll member
        apply Node.Low.rule (by omega) deep
        simp only [List.forall_mem_cons, List.forall_mem_map]
        refine ⟨.leaf (by omega) (by omega), fun argument member => ?_⟩
        have least := height_le_heightOfAll member
        exact (lowArguments argument member).enclosed (by omega) (by omega)

end Expression

namespace Program

variable {program : Program}

theorem Writable.readStatements (writable : program.Writable) :
    ∀ spelling ∈ program.spellings, Read .statement spelling.1 spelling.2 := by
  rw [spellings, List.forall_mem_append, List.forall_mem_map, List.forall_mem_map]
  constructor
  · intro function member
    refine .functionDef rfl rfl ?_ rfl (writable.body member).readWhole
    exact List.forall_mem_map.mpr fun _ _ => rfl
  · intro statement member
    obtain ⟨before, behind, split⟩ := List.append_of_mem member
    have value := (writable.value split).readWhole
    cases statement with
    | declaration name _ => exact .variableDecl rfl rfl rfl value
    | output _ => exact .outputStmt rfl value

/-- Every line of a program ends with one of its expressions. -/
theorem exists_expression
    {spelling : Spelling} (member : spelling ∈ program.spellings) :
    ∃ expression ∈ program.expressions, spelling.2.expression? = some expression.spelling.2 := by
  rcases List.mem_append.mp member with inFunctions | inStatements
  · obtain ⟨function, isFunction, rfl⟩ := List.mem_map.mp inFunctions
    refine ⟨function.body, List.mem_append_left _ (List.mem_map_of_mem isFunction), ?_⟩
    simp [Function.spelling, Function.node, Node.expression?, Node.rule, Node.children,
      List.getLast?_cons]
  · obtain ⟨statement, isStatement, rfl⟩ := List.mem_map.mp inStatements
    refine ⟨statement.value, List.mem_append_right _ (List.mem_map_of_mem isStatement), ?_⟩
    cases statement <;> rfl

/-- The tokens of a program that can be written are read to its tree. -/
theorem Writable.ofTokens (writable : program.Writable) (path : Option String) :
    Tree.ofTokens program.tokens path = .ok ⟨program.root, path⟩ := by
  apply Tree.ofTokens_of_read path writable.readStatements rfl
  intro spelling member expression ends
  obtain ⟨written, isExpression, isLast⟩ := exists_expression member
  cases isLast.symm.trans ends
  have low := writable.low written isExpression
  exact (written.lowSpelled nestingLimit 1 (by unfold nestingLimit; omega) (by omega)).within

end Program

end RomanScript
