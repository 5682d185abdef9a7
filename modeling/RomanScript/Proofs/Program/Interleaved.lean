import RomanScript.Proofs.Node.Agreement
import RomanScript.Proofs.Program.Lowered

/-!
# Definitions and main text

A program is made of two sequences of nodes: the definitions of its functions, and the declarations
and outputs of its main text. How the two are interleaved in a tree, and what else stands between
them, does not matter, and neither do the heights that the nodes record.
-/

namespace RomanScript.Program

variable {path : Option String} {signatures : Signatures} {scope : List String} {node : Node}

@[simp]
theorem ok_bind {α β : Type} (value : α) (next : α → Except Failure β) :
    ((.ok value : Except Failure α) >>= next) = next value := rfl

def sentencesAmong (children : List Node) : List Node :=
  (children.filter (·.symbol == .statement)).filterMap (·.children.head?)

def definitionsAmong (children : List Node) : List Node :=
  (sentencesAmong children).filter (·.symbol == .functionDef)

/-- Declarations and outputs make the main text. -/
def isMain (sentence : Node) : Bool :=
  sentence.symbol == .variableDecl || sentence.symbol == .outputStmt

def mainAmong (children : List Node) : List Node :=
  (sentencesAmong children).filter isMain

theorem sentencesAmong_append (before behind : List Node) :
    sentencesAmong (before ++ behind) = sentencesAmong before ++ sentencesAmong behind := by
  simp [sentencesAmong]

theorem definitionsAmong_append (before behind : List Node) :
    definitionsAmong (before ++ behind) = definitionsAmong before ++ definitionsAmong behind := by
  simp [definitionsAmong, sentencesAmong_append]

theorem mainAmong_append (before behind : List Node) :
    mainAmong (before ++ behind) = mainAmong before ++ mainAmong behind := by
  simp [mainAmong, sentencesAmong_append]

def ofParts (path : Option String) (definitions main : List Node) : Except Failure Program := do
  let signatures ← signaturesFrom path [] definitions
  let functions ← lowerFunctions path signatures definitions
  let statements ← lowerStatements path signatures [] main
  return ⟨functions, statements⟩

/-- Lowering passes over everything that is not main text. -/
theorem lowerStatements_filter (declared : List String) (sentences : List Node) :
    lowerStatements path signatures declared sentences =
      lowerStatements path signatures declared (sentences.filter isMain) := by
  induction sentences generalizing declared with
  | nil => rfl
  | cons sentence rest inductionHypothesis =>
      rw [lowerStatements]
      split
      · rename_i isDeclaration
        rw [List.filter_cons_of_pos (by simp [isMain, isDeclaration]), lowerStatements,
          isDeclaration]
        simp only [inductionHypothesis]
      · rename_i isOutput
        rw [List.filter_cons_of_pos (by simp [isMain, isOutput]), lowerStatements, isOutput]
        simp only [inductionHypothesis]
      · rename_i notDeclaration notOutput
        have notMain : ¬ isMain sentence = true := by
          simpa [isMain] using ⟨notDeclaration, notOutput⟩
        rw [List.filter_cons_of_neg notMain, inductionHypothesis]

def Filled (root : Node) : Prop :=
  ∀ statement ∈ root.statements, statement.children ≠ []

private theorem statementBodies_of_filled
    {statements : List Node} (filled : ∀ statement ∈ statements, statement.children ≠ []) :
    statementBodies statements = .ok (statements.filterMap (·.children.head?)) := by
  induction statements with
  | nil => rfl
  | cons statement rest inductionHypothesis =>
      obtain ⟨first, others⟩ := List.forall_mem_cons.mp filled
      obtain ⟨sentence, behind, split⟩ := List.exists_cons_of_ne_nil first
      have isFirst : statement.children.head? = some sentence := by rw [split, List.head?_cons]
      have isChild : childAt statement 0 = .ok sentence := by
        rw [childAt_eq_ok, ← List.head?_eq_getElem?, isFirst]
      rw [statementBodies, isChild, inductionHypothesis others, ok_bind, ok_bind,
        List.filterMap_cons, isFirst]
      rfl

/-- The program of a tree comes from its two sequences alone. -/
theorem ofNode_eq_ofParts {root : Node} (filled : Filled root) :
    ofNode path root =
      ofParts path (definitionsAmong root.children) (mainAmong root.children) := by
  have bodies : statementBodies root.statements = .ok (sentencesAmong root.children) :=
    statementBodies_of_filled filled
  rw [ofNode, bodies, ok_bind, ofParts, mainAmong]
  simp only [← lowerStatements_filter]
  rfl

@[simp]
theorem refuse_bare {α : Type} (problem : Problem) :
    (refuse path problem node.bare : Except Failure α) = refuse path problem node := by
  simp only [refuse, Node.line_bare, Node.column_bare]

@[simp]
theorem childAt_bare (index : Nat) :
    childAt node.bare index = Node.bare <$> childAt node index := by
  unfold childAt
  rw [Node.children_bare, List.getElem?_map]
  cases node.children[index]? <;> rfl

@[simp]
theorem lastChild_bare : lastChild node.bare = Node.bare <$> lastChild node := by
  unfold lastChild
  rw [Node.children_bare, List.getLast?_map]
  cases node.children.getLast? <;> rfl

@[simp]
theorem operatorOf_bare : operatorOf node.bare = operatorOf node := by
  simp only [operatorOf, Node.symbol_bare]

@[simp]
theorem lowerCall_bare (arguments : Except Failure (List Expression)) :
    lowerCall path signatures node.bare arguments = lowerCall path signatures node arguments := by
  simp only [lowerCall, Node.text_bare, refuse_bare]

@[simp]
theorem lowerSimple_bare :
    lowerSimple path signatures scope node.bare = lowerSimple path signatures scope node := by
  simp only [lowerSimple, lowerName, Node.symbol_bare, Node.text_bare, Node.line_bare,
    Node.column_bare, Node.children_bare, List.length_map, lowerCall_bare, refuse_bare]

/-- The induction is on the calls of the two functions, as they are defined together. -/
theorem lower_and_lowerAll_bare :
    (∀ node, lower path signatures scope node.bare = lower path signatures scope node) ∧
      ∀ nodes, lowerAll path signatures scope (nodes.map Node.bare) =
        lowerAll path signatures scope nodes := by
  apply lower.mutual_induct
  case case1 | case2 =>
    intro text line column height left operator right sameLeft sameRight
    simp only [Node.bare_branch, List.map_cons, List.map_nil, lower, operatorOf_bare, sameLeft,
      sameRight]
  case case3 =>
    intro text line column height sign operand sameOperand
    simp only [Node.bare_branch, List.map_cons, List.map_nil, lower, operatorOf_bare, sameOperand]
  case case4 =>
    intro text line column height opening inner behind sameInner
    simp only [Node.bare_branch, List.map_cons, lower, sameInner]
  case case5 =>
    intro text line column height keyword condition consequence alternative sameCondition
      sameConsequence sameAlternative
    simp only [Node.bare_branch, List.map_cons, List.map_nil, lower, sameCondition,
      sameConsequence, sameAlternative]
  case case6 =>
    intro text line column height callee arguments sameArguments
    simp only [Node.bare_branch, List.map_cons, lower, lowerCall_bare, sameArguments]
  case case7 =>
    intro node notSum notProduct notSigned notGroup notConditional notCall
    -- Without heights a branch has the children it had, so it is not taken for another one.
    rw [lower, lower, lowerSimple_bare]
    any_goals assumption
    · intro text line column height left operator right same
      obtain ⟨_, _, rfl, _ | ⟨_, _ | ⟨_, _ | ⟨_, _ | _⟩⟩⟩⟩ := Node.exists_of_bare_eq same
      exact notSum _ _ _ _ _ _ _ rfl
    · intro text line column height left operator right same
      obtain ⟨_, _, rfl, _ | ⟨_, _ | ⟨_, _ | ⟨_, _ | _⟩⟩⟩⟩ := Node.exists_of_bare_eq same
      exact notProduct _ _ _ _ _ _ _ rfl
    · intro text line column height sign operand same
      obtain ⟨_, _, rfl, _ | ⟨_, _ | ⟨_, _ | _⟩⟩⟩ := Node.exists_of_bare_eq same
      exact notSigned _ _ _ _ _ _ rfl
    · intro text line column height opening inner behind same
      obtain ⟨_, _, rfl, _ | ⟨_, _ | ⟨_, _⟩⟩⟩ := Node.exists_of_bare_eq same
      exact notGroup _ _ _ _ _ _ _ rfl
    · intro text line column height keyword condition consequence alternative same
      obtain ⟨_, _, rfl, _ | ⟨_, _ | ⟨_, _ | ⟨_, _ | ⟨_, _ | _⟩⟩⟩⟩⟩ := Node.exists_of_bare_eq same
      exact notConditional _ _ _ _ _ _ _ _ rfl
    · intro text line column height callee arguments same
      obtain ⟨_, _, rfl, _ | ⟨_, _⟩⟩ := Node.exists_of_bare_eq same
      exact notCall _ _ _ _ _ _ rfl
  case case8 => rfl
  case case9 =>
    intro node rest sameFirst sameRest
    simp only [List.map_cons, lowerAll, sameFirst, sameRest]

private theorem lower_bare : lower path signatures scope node.bare = lower path signatures scope node :=
  lower_and_lowerAll_bare.1 node

@[simp]
theorem parameterNodes_bare : parameterNodes node.bare = (parameterNodes node).map Node.bare := by
  simp [parameterNodes, List.map_take, List.map_drop]

private theorem signaturesFrom_bare (found : Signatures) (definitions : List Node) :
    signaturesFrom path found (definitions.map Node.bare) =
      signaturesFrom path found definitions := by
  induction definitions generalizing found with
  | nil => rfl
  | cons definition rest inductionHypothesis =>
      simp only [List.map_cons, signaturesFrom, childAt_bare, bind_map_left, Node.text_bare,
        parameterNodes_bare, List.length_map, refuse_bare, inductionHypothesis]

private theorem parametersFrom_bare (found : List String) (parameters : List Node) :
    parametersFrom path found (parameters.map Node.bare) =
      parametersFrom path found parameters := by
  induction parameters generalizing found with
  | nil => rfl
  | cons parameter rest inductionHypothesis =>
      simp only [List.map_cons, parametersFrom, Node.text_bare, refuse_bare, inductionHypothesis]

private theorem lowerFunctions_bare (definitions : List Node) :
    lowerFunctions path signatures (definitions.map Node.bare) =
      lowerFunctions path signatures definitions := by
  induction definitions with
  | nil => rfl
  | cons definition rest inductionHypothesis =>
      have same : lowerFunction path signatures definition.bare =
          lowerFunction path signatures definition := by
        simp only [lowerFunction, parameterNodes_bare, parametersFrom_bare, lastChild_bare,
          bind_map_left, lower_bare, childAt_bare, Node.text_bare]
      rw [List.map_cons, lowerFunctions, lowerFunctions, same, inductionHypothesis]

private theorem lowerStatements_bare (declared : List String) (sentences : List Node) :
    lowerStatements path signatures declared (sentences.map Node.bare) =
      lowerStatements path signatures declared sentences := by
  induction sentences generalizing declared with
  | nil => rfl
  | cons sentence rest inductionHypothesis =>
      simp only [List.map_cons, lowerStatements, Node.symbol_bare, childAt_bare, bind_map_left,
        Node.text_bare, refuse_bare, lower_bare, inductionHypothesis]

private theorem ofParts_bare (definitions main : List Node) :
    ofParts path (definitions.map Node.bare) (main.map Node.bare) =
      ofParts path definitions main := by
  simp only [ofParts, signaturesFrom_bare, lowerFunctions_bare, lowerStatements_bare]

/-- Two trees with the same definitions and the same main text, each in its order, have the same
program or the same failure, however the two sequences are interleaved. -/
theorem ofTree_interleaved
    {left right : Tree} (samePath : left.path = right.path)
    (leftFilled : Filled left.root) (rightFilled : Filled right.root)
    (sameDefinitions : Node.agreeAll (definitionsAmong left.root.children)
      (definitionsAmong right.root.children) = true)
    (sameMain : Node.agreeAll (mainAmong left.root.children)
      (mainAmong right.root.children) = true) :
    ofTree left = ofTree right := by
  rw [Node.agreeAll_iff_map_bare_eq] at sameDefinitions sameMain
  calc ofTree left
      = ofParts left.path (definitionsAmong left.root.children)
          (mainAmong left.root.children) := ofNode_eq_ofParts leftFilled
    _ = ofParts right.path (definitionsAmong right.root.children)
          (mainAmong right.root.children) := by
        rw [← ofParts_bare, sameDefinitions, sameMain, ofParts_bare, samePath]
    _ = ofTree right := (ofNode_eq_ofParts rightFilled).symm

def identityNode (height : Nat) : Node :=
  .branch .functionDef "Munusfn=n" 1 0 height
    [.leaf ⟨.keyword .define, "Munus", 1, 0⟩, .leaf ⟨.identifier, "f", 1, 6⟩,
      .leaf ⟨.identifier, "n", 1, 8⟩, .leaf ⟨.equals, "=", 1, 10⟩,
      .leaf ⟨.identifier, "n", 1, 12⟩]

def callNode : Node :=
  .rule .outputStmt [.leaf ⟨.keyword .output, "Grafo", 2, 0⟩,
    .rule .call [.leaf ⟨.identifier, "f", 2, 6⟩, .leaf ⟨.numeral, "IV", 2, 8⟩]]

theorem ofTree_interleaved_definitionLast :
    ∃ left right : Tree, left ≠ right ∧ left.path = right.path ∧ Filled left.root ∧
      Filled right.root ∧
      Node.agreeAll (definitionsAmong left.root.children)
        (definitionsAmong right.root.children) = true ∧
      Node.agreeAll (mainAmong left.root.children) (mainAmong right.root.children) = true ∧
      ofTree left = ofTree right ∧
      ofTree left = .ok ⟨[⟨"f", ["n"], .variable "n"⟩], [.output (.call "f" [.literal 4])]⟩ := by
  let left : Tree := ⟨.rule .program
    [.rule .statement [identityNode 2], .rule .statement [callNode]], none⟩
  let right : Tree := ⟨.rule .program
    [.rule .statement [callNode], .leaf ⟨.endOfText, "", 3, 0⟩,
      .rule .statement [identityNode 7]], none⟩
  have differ : left ≠ right := by decide
  have leftFilled : Filled left.root := by
    simp [Filled, left, Node.rule, Node.statements, Node.children, Node.symbol]
  have rightFilled : Filled right.root := by
    simp [Filled, right, Node.rule, Node.statements, Node.children, Node.symbol]
  have sameDefinitions : Node.agreeAll (definitionsAmong left.root.children)
      (definitionsAmong right.root.children) = true := by decide
  have sameMain : Node.agreeAll (mainAmong left.root.children)
      (mainAmong right.root.children) = true := by decide
  exact ⟨left, right, differ, rfl, leftFilled, rightFilled, sameDefinitions, sameMain,
    ofTree_interleaved rfl leftFilled rightFilled sameDefinitions sameMain, rfl⟩

end RomanScript.Program
