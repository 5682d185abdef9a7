import RomanScript.Proofs.Compilation
import RomanScript.Proofs.Program.Evaluation

/-!
# Lowering preserves meaning

A program does what the tree it was lowered from does: both write the same numbers and leave the
same inputs, or stop for the same reason after the same outputs, whatever the operations mean and
however deeply calls may be nested.
-/

namespace RomanScript.Program

open Evaluation

variable {ε : Type} {arithmetic : Arithmetic ε} {invoke : String → List Int → Evaluation ε Int}
    {path : Option String} {signatures : Signatures} {scope : List String} {bindings : Bindings}
    {names : List Token}

/-- The names in scope are those that have values. -/
def Binds (bindings : Bindings) (scope : List String) : Prop :=
  ∀ name, name ∈ scope ↔ ∃ value, bindings.lookup name = some value

/-- Whatever a node is lowered to has the value of the node. -/
def Preserves (arithmetic : Arithmetic ε) (invoke : String → List Int → Evaluation ε Int)
    (bindings : Bindings) (path : Option String) (signatures : Signatures) (scope : List String)
    (node : Node) : Prop :=
  ∀ expression, lower path signatures scope node = .ok expression →
    node.evaluate arithmetic invoke bindings = expression.evaluate arithmetic invoke bindings

private theorem operation_eq_of_ok
    {token : Token} {operator : Operator} (isOperator : operatorOf (.leaf token) = .ok operator) :
    (Node.operation token : Evaluation ε Operator) = pure operator := by
  unfold operatorOf Node.symbol at isOperator
  unfold Node.operation
  split at isOperator <;> cases isOperator <;> simp [*]

private theorem evaluateAll_lowerAll
    {nodes : List Node}
    (preserves : ∀ node ∈ nodes, Preserves arithmetic invoke bindings path signatures scope node)
    {expressions : List Expression}
    (lowered : lowerAll path signatures scope nodes = .ok expressions) :
    Node.evaluateAll arithmetic invoke bindings nodes =
      Expression.evaluateAll arithmetic invoke bindings expressions := by
  induction nodes generalizing expressions with
  | nil =>
      cases lowered
      rfl
  | cons node rest inductionHypothesis =>
      rw [List.forall_mem_cons] at preserves
      obtain ⟨first, isFirst, lowered⟩ := exists_of_bind_eq_ok lowered
      obtain ⟨others, areOthers, lowered⟩ := exists_of_bind_eq_ok lowered
      cases lowered
      rw [Node.evaluateAll, Expression.evaluateAll, preserves.1 first isFirst,
        inductionHypothesis preserves.2 areOthers]

/-- Callees are not looked for in the scope, so a call means the same on both sides. -/
theorem evaluate_lowerCall
    {callee : Node} {arguments : List Node} {expression : Expression}
    (preserves : ∀ node ∈ arguments,
      Preserves arithmetic invoke bindings path signatures scope node)
    (lowered : lowerCall path signatures callee (lowerAll path signatures scope arguments) =
      .ok expression) :
    (do
      let values ← Node.evaluateAll arithmetic invoke bindings arguments
      invoke callee.text values) = expression.evaluate arithmetic invoke bindings := by
  obtain ⟨expressions, areExpressions, _, rfl⟩ := exists_of_lowerCall lowered
  rw [Expression.evaluate, evaluateAll_lowerAll preserves areExpressions]

private theorem evaluate_lowerName
    (binds : Binds bindings scope) {name : Node} {expression : Expression}
    (lowered : lowerName path signatures scope name = .ok expression) :
    Node.evaluateName invoke bindings name.text =
      expression.evaluate arithmetic invoke bindings := by
  unfold lowerName at lowered
  by_cases inScope : name.text ∈ scope
  · obtain ⟨value, bound⟩ := (binds name.text).mp inScope
    simp only [List.contains_iff_mem, inScope, if_true] at lowered
    cases lowered
    simp only [Node.evaluateName, Expression.evaluate, bound]
  · have unbound : bindings.lookup name.text = none := by
      simpa [Option.eq_none_iff_forall_ne_some] using mt (binds name.text).mpr inScope
    simp only [List.contains_iff_mem, inScope, if_false] at lowered
    by_cases isFunction : (signatures.lookup name.text).isSome = true
    · have nothing : lowerAll path signatures scope [] = .ok [] := by rw [lowerAll]
      rw [if_pos isFunction, ← nothing] at lowered
      have called : (do
          let values ← Node.evaluateAll arithmetic invoke bindings []
          invoke name.text values) = expression.evaluate arithmetic invoke bindings :=
        evaluate_lowerCall (fun _ member => absurd member List.not_mem_nil) lowered
      rw [← called, Node.evaluateAll, pure_bind, Node.evaluateName, unbound]
    · rw [if_neg isFunction] at lowered
      cases lowered

private theorem preserves_leaf
    (binds : Binds bindings scope) {token : Token} (simple : token.symbol ∈ Node.simple) :
    Preserves arithmetic invoke bindings path signatures scope (.leaf token) := by
  intro expression lowered
  rw [lower] at lowered
  · rw [Node.evaluate, Node.evaluateToken]
    simp only [Node.simple, List.mem_cons, List.not_mem_nil, or_false] at simple
    rcases simple with isNumeral | isName | isInput
    · simp only [lowerSimple, Node.symbol, Node.text, isNumeral] at lowered ⊢
      cases isValue : Numeral.value? token.text with
      | none =>
          rw [isValue] at lowered
          cases lowered
      | some value =>
          rw [isValue] at lowered
          cases lowered
          simp only [Expression.evaluate]
    · simp only [lowerSimple, Node.symbol, isName] at lowered ⊢
      exact evaluate_lowerName binds lowered
    · simp only [lowerSimple, Node.symbol, isInput] at lowered ⊢
      cases lowered
      simp only [Expression.evaluate]
  all_goals simp

private theorem evaluate_lowerBinary
    {left right : Node} {operator : Token} {expression : Expression}
    (preservesLeft : Preserves arithmetic invoke bindings path signatures scope left)
    (preservesRight : Preserves arithmetic invoke bindings path signatures scope right)
    (lowered : (do
      let operator ← operatorOf (.leaf operator)
      let left ← lower path signatures scope left
      let right ← lower path signatures scope right
      return Expression.binary operator left right) = .ok expression) :
    (do
      let operator ← Node.operation operator
      let left ← left.evaluate arithmetic invoke bindings
      let right ← right.evaluate arithmetic invoke bindings
      compute (arithmetic.binary operator left right)) =
        expression.evaluate arithmetic invoke bindings := by
  obtain ⟨operation, isOperation, lowered⟩ := exists_of_bind_eq_ok lowered
  obtain ⟨first, isFirst, lowered⟩ := exists_of_bind_eq_ok lowered
  obtain ⟨second, isSecond, lowered⟩ := exists_of_bind_eq_ok lowered
  cases lowered
  rw [operation_eq_of_ok isOperation, preservesLeft first isFirst, preservesRight second isSecond,
    pure_bind, Expression.evaluate]

private theorem preserves_lower
    (binds : Binds bindings scope) {node : Node} (formed : Formed names node) :
    Preserves arithmetic invoke bindings path signatures scope node := by
  induction formed using Formed.induction with
  | leaf token _ _ simple => exact preserves_leaf binds simple
  | binary symbol left operator right _ _ _ isBinary _ preservesLeft preservesRight =>
      intro result lowered
      rcases isBinary with rfl | rfl <;>
      · rw [Node.rule, lower] at lowered
        rw [Node.rule, Node.evaluate]
        exact evaluate_lowerBinary preservesLeft preservesRight lowered
  | signed sign operand _ _ _ preserves =>
      intro result lowered
      rw [Node.rule, lower] at lowered
      obtain ⟨operation, isOperation, lowered⟩ := exists_of_bind_eq_ok lowered
      obtain ⟨value, isValue, lowered⟩ := exists_of_bind_eq_ok lowered
      cases lowered
      rw [Node.rule, Node.evaluate, operation_eq_of_ok isOperation, preserves value isValue,
        pure_bind, Expression.evaluate]
  | call callee arguments _ _ _ _ preserves =>
      intro result lowered
      rw [Node.rule, lower] at lowered
      rw [Node.rule, Node.evaluate]
      exact evaluate_lowerCall preserves lowered
  | conditional keyword condition consequence alternative _ _ _ _ _ preserves₁ preserves₂
      preserves₃ =>
      intro result lowered
      rw [Node.rule, lower] at lowered
      obtain ⟨first, isFirst, lowered⟩ := exists_of_bind_eq_ok lowered
      obtain ⟨second, isSecond, lowered⟩ := exists_of_bind_eq_ok lowered
      obtain ⟨third, isThird, lowered⟩ := exists_of_bind_eq_ok lowered
      cases lowered
      rw [Node.rule, Node.evaluate, Expression.evaluate, preserves₁ first isFirst,
        preserves₂ second isSecond, preserves₃ third isThird]
  | group opening inner closing _ _ _ _ preserves =>
      intro result lowered
      rw [Node.rule, lower] at lowered
      rw [Node.rule, Node.evaluate]
      exact preserves result lowered

private theorem binds_nil : Binds [] [] := by
  intro name
  simp

private theorem binds_cons
    (binds : Binds bindings scope) (name : String) (value : Int) :
    Binds ((name, value) :: bindings) (scope ++ [name]) := by
  intro other
  have before := binds other
  by_cases same : other = name
  · simp [same]
  · have different : (other == name) = false := by simpa using same
    simp [List.lookup_cons, different, before, same]

/-- Parameters get their values one by one. -/
theorem binds_zip
    {parameters : List String} {values : List Int} (length : values.length = parameters.length) :
    Binds (parameters.zip values) parameters := by
  induction parameters generalizing values with
  | nil =>
      intro name
      simp
  | cons parameter rest inductionHypothesis =>
      cases values with
      | nil => simp at length
      | cons value others =>
          have behind := inductionHypothesis (by simpa using length)
          intro name
          have after := behind name
          by_cases same : name = parameter
          · simp [same]
          · have different : (name == parameter) = false := by simpa using same
            simp [List.lookup_cons, different, after, same]

/-- The definition of a name and the function of that name are found together. -/
theorem rel_definition?
    {definitions : List Node} {functions : List Function}
    (defines : List.Forall₂ (Defines path signatures) definitions functions) (name : String) :
    Option.Rel (Defines path signatures) (Node.definition? definitions name)
      (functions.find? (·.name == name)) := by
  unfold Node.definition?
  induction defines with
  | nil => exact .none
  | @cons definition function rest others define _ inductionHypothesis =>
      obtain ⟨nameNode, isName, named⟩ := define.name
      have found : nameOf? definition = some nameNode := isName
      rw [List.find?_cons, List.find?_cons, found, Option.any_some, named]
      cases nameNode.text == name with
      | true => exact .some define
      | false => exact inductionHypothesis

section Comes

variable {root : Node} {bodies : List Node} {program : Program}
    (comes : Comes path root bodies program) (sentences : ∀ body ∈ bodies, Sentence names body)

include comes sentences

/-- Calls mean the same, however deeply they may be nested: what is called one level less deep
means the same by induction on the bound. -/
theorem invoke_eq (depth : Nat) :
    Node.invoke arithmetic (bodies.filter (·.symbol == .functionDef)) depth =
      program.invoke arithmetic depth := by
  induction depth with
  | zero => rfl
  | succ depth inductionHypothesis =>
      funext name values
      rw [Node.invoke, Program.invoke, Program.function?]
      have together := rel_definition? comes.functions name
      generalize found : Node.definition? _ name = definition? at together ⊢
      generalize program.functions.find? (·.name == name) = function? at together ⊢
      cases together with
      | none => rfl
      | @some definition function define =>
          have member : definition ∈ bodies.filter (·.symbol == .functionDef) :=
            List.mem_of_find?_eq_some found
          obtain ⟨inBodies, isDefinition⟩ := List.mem_filter.mp member
          obtain ⟨_, parameters, body, outline⟩ :=
            exists_outline (sentences definition inBodies) (by simpa using isDefinition)
          obtain ⟨other, isBody, lowered⟩ := define.body
          cases outline.isBody.symm.trans isBody
          have sameParameters : (parametersOf definition).map Node.text = function.parameters := by
            rw [outline.areParameters, define.parameters, outline.stand]
          simp only [outline.isBody, sameParameters, Function.arity, inductionHypothesis]
          by_cases length : values.length = function.parameters.length
          · simp only [length, if_true]
            exact preserves_lower (binds_zip length) outline.formed _ lowered
          · simp only [length, if_false]

end Comes

/-- The main texts do the same from values of the variables that are declared on. -/
theorem runSentences_eq
    {declared : List String} {bodies : List Node} {statements : List Statement}
    (states : States path signatures declared bodies statements)
    (sentences : ∀ body ∈ bodies, Sentence names body) (binds : Binds bindings declared) :
    Node.runSentences arithmetic invoke bindings bodies =
      runStatements arithmetic invoke bindings statements := by
  induction states generalizing bindings with
  | done => rfl
  | declaration isDeclaration isName isValue _ _ lowered _ inductionHypothesis =>
      obtain ⟨sentence, others⟩ := List.forall_mem_cons.mp sentences
      cases sentence with
      | functionDef | outputStmt => cases isDeclaration
      | @variableDecl _ name _ value _ _ formed =>
          cases isName
          cases isValue
          have same : Node.evaluate arithmetic invoke bindings _ = _ :=
            preserves_lower binds formed _ lowered
          rw [Node.rule, Node.runSentences, runStatements, same]
          apply bind_congr
          intro result
          exact inductionHypothesis others (binds_cons binds name.text result)
  | output isOutput isValue lowered _ inductionHypothesis =>
      obtain ⟨sentence, others⟩ := List.forall_mem_cons.mp sentences
      cases sentence with
      | functionDef | variableDecl => cases isOutput
      | outputStmt formed =>
          cases isValue
          have same : Node.evaluate arithmetic invoke bindings _ = _ :=
            preserves_lower binds formed _ lowered
          rw [Node.rule, Node.runSentences, runStatements, same, inductionHypothesis others binds]
  | other notDeclaration notOutput _ inductionHypothesis =>
      obtain ⟨sentence, others⟩ := List.forall_mem_cons.mp sentences
      cases sentence with
      | functionDef =>
          rw [Node.rule, Node.runSentences]
          · exact inductionHypothesis others binds
          all_goals simp
      | variableDecl => exact absurd rfl notDeclaration
      | outputStmt => exact absurd rfl notOutput

/-- A program does on all inputs what the tree does that it was lowered from. -/
theorem run_ofTree
    {tokens : List Token} {tree : Tree} {program : Program}
    (parsed : Tree.ofTokens tokens path = .ok tree) (lowered : ofTree tree = .ok program)
    (arithmetic : Arithmetic ε) (depth : Nat) (inputs : List Int) :
    tree.run arithmetic depth inputs = program.run arithmetic depth inputs := by
  obtain ⟨finished, _⟩ := Tree.exists_of_ofTokensUnder_ok parsed
  have parses := Tree.parsed_ofTokens finished path
  rw [parsed] at parses
  cases parses with
  | @tree root regular branch included =>
      obtain ⟨bodies, comes⟩ := comes_of_ok lowered
      obtain ⟨sameBodies, taken, sentences⟩ := exists_bodies regular branch
      have same : sentencesOf root = bodies := sentencesOf_eq comes.first
      rw [← sentencesOf_eq (forall₂_bodies_of_ok taken), same] at sentences
      rw [Tree.run, Program.run, same, invoke_eq comes sentences,
        runSentences_eq comes.statements sentences binds_nil]

/-- A parameter that hides its function, and a call without arguments that reads a number. -/
def twoReadings : List Token :=
  [⟨.keyword .define, "Munus", 1, 0⟩, ⟨.identifier, "n", 1, 6⟩, ⟨.identifier, "n", 1, 8⟩,
    ⟨.equals, "=", 1, 10⟩, ⟨.identifier, "n", 1, 12⟩, ⟨.keyword .define, "Munus", 2, 0⟩,
    ⟨.identifier, "f", 2, 6⟩, ⟨.equals, "=", 2, 8⟩, ⟨.keyword .input, "Anagnosi", 2, 10⟩,
    ⟨.keyword .output, "Grafo", 3, 0⟩, ⟨.identifier, "n", 3, 6⟩, ⟨.identifier, "f", 3, 8⟩,
    ⟨.minus, "-", 3, 10⟩, ⟨.identifier, "f", 3, 12⟩, ⟨.endOfText, "", 3, 13⟩]

def differences : Arithmetic Operator where
  unary operator _ := .error operator
  binary
    | .sub, left, right => .ok (left - right)
    | operator, _, _ => .error operator

theorem run_ofTree_twoReadings :
    ∃ tree program, Tree.ofTokens twoReadings none = .ok tree ∧ ofTree tree = .ok program ∧
      tree.run differences 1 [7, 3, 5] = program.run differences 1 [7, 3, 5] ∧
        tree.run differences 1 [7, 3, 5] = (.ok (), ⟨[5], [4]⟩) := by
  have runs : ((Tree.ofTokens twoReadings none).toOption.bind fun tree =>
      (ofTree tree).toOption.map fun program => program.run differences 1 [7, 3, 5]) =
        some (.ok (), ⟨[5], [4]⟩) := by decide +kernel
  cases parsed : Tree.ofTokens twoReadings none with
  | error failure => simp [parsed, Except.toOption] at runs
  | ok tree =>
      cases lowered : ofTree tree with
      | error failure => simp [parsed, lowered, Except.toOption] at runs
      | ok program =>
          have same := run_ofTree parsed lowered differences 1 [7, 3, 5]
          refine ⟨tree, program, rfl, lowered, same, ?_⟩
          simpa [parsed, lowered, Except.toOption, same] using runs

end RomanScript.Program
