import RomanScript.Proofs.Node.Moved
import RomanScript.Proofs.Program.Judged

/-!
# Lowering of moved trees

Trees that are built alike from tokens of the same index are lowered to the same program, or refused
for the same reason at tokens of the same index.
-/

namespace RomanScript.Program

variable {α : Type} {lefts rights names : List Token} {path : Option String}
    {signatures : Signatures} {scope : List String} {node node' : Node}

private theorem moved_refuse
    {problem : Problem} (moved : node.Moved lefts rights node') :
    Failure.Moved lefts rights path Eq (refuse path problem node : Except Failure α)
      (refuse path problem node') :=
  .diagnostic (moved.begins.diagnostics problem)

private theorem moved_childAt (moved : node.Moved lefts rights node') (index : Nat) :
    Failure.Moved lefts rights path (Node.Moved lefts rights) (childAt node index)
      (childAt node' index) := by
  have child := Node.at_of_pointwise moved.children index
  unfold childAt
  generalize node.children[index]? = found at child ⊢
  generalize node'.children[index]? = found' at child ⊢
  cases child with
  | some moved => exact .value moved
  | none => exact .misuse _ _

private theorem exists_childAt
    {index : Nat} {child : Node} (moved : node.Moved lefts rights node')
    (found : childAt node index = .ok child) :
    ∃ child', childAt node' index = .ok child' ∧ child.Moved lefts rights child' := by
  have children : Failure.Moved lefts rights none _ (childAt node index) (childAt node' index) :=
    moved_childAt moved index
  rw [found] at children
  generalize childAt node' index = found' at children ⊢
  cases children with
  | value moved => exact ⟨_, rfl, moved⟩

private theorem exists_lastChild
    {child : Node} (moved : node.Moved lefts rights node')
    (found : node.children.getLast? = some child) :
    ∃ child', lastChild node' = .ok child' ∧ child.Moved lefts rights child' := by
  have last := Node.last_of_pointwise moved.children
  rw [found] at last
  unfold lastChild
  generalize node'.children.getLast? = found' at last ⊢
  cases last with
  | some moved => exact ⟨_, rfl, moved⟩

private theorem moved_lowerCall
    {arguments arguments' : Except Failure (List Expression)}
    (callee : node.Moved lefts rights node')
    (moved : Failure.Moved lefts rights path Eq arguments arguments') :
    Failure.Moved lefts rights path Eq (lowerCall path signatures node arguments)
      (lowerCall path signatures node' arguments') := by
  unfold lowerCall
  rw [← callee.text]
  split
  · exact moved_refuse callee
  · apply moved.bind
    rintro values _ rfl
    split
    · exact .value rfl
    · exact moved_refuse callee

private theorem moved_lowerName (moved : node.Moved lefts rights node') :
    Failure.Moved lefts rights path Eq (lowerName path signatures scope node)
      (lowerName path signatures scope node') := by
  unfold lowerName
  rw [← moved.text]
  split
  · exact .value rfl
  · split
    · exact moved_lowerCall moved (.value rfl)
    · exact moved_refuse moved

private theorem moved_lower_leaf
    {x : Token} (simple : x.symbol ∈ Node.simple) (moved : (Node.leaf x).Moved lefts rights node') :
    Failure.Moved lefts rights path Eq (lower path signatures scope (.leaf x))
      (lower path signatures scope node') := by
  obtain ⟨y, rfl, paired⟩ := moved.exists_of_leaf
  have named : Failure.Moved lefts rights path Eq (lowerName path signatures scope (.leaf x))
      (lowerName path signatures scope (.leaf y)) := moved_lowerName moved
  have sameSymbol : y.symbol = x.symbol := paired.symbol.symm
  have sameText : y.text = x.text := paired.text.symm
  rw [lower, lower]
  simp only [Node.simple, List.mem_cons, List.not_mem_nil, or_false] at simple
  rcases simple with isNumeral | isName | isInput
  · simp only [lowerSimple, Node.symbol, Node.text, sameSymbol, sameText, isNumeral]
    split
    · exact .value rfl
    · exact .misuse _ _
  · simpa only [lowerSimple, Node.symbol, sameSymbol, isName] using named
  · simp only [lowerSimple, Node.symbol, sameSymbol, isInput]
    exact .value rfl
  all_goals simp

private theorem moved_operatorOf (moved : node.Moved lefts rights node') :
    Failure.Moved lefts rights path Eq (operatorOf node) (operatorOf node') := by
  unfold operatorOf
  rw [← moved.symbol]
  split <;> first | exact .value rfl | exact .misuse _ _

def LowersAlike (lefts rights : List Token) (path : Option String) (signatures : Signatures)
    (scope : List String) (node : Node) : Prop :=
  ∀ node', node.Moved lefts rights node' →
    Failure.Moved lefts rights path Eq (lower path signatures scope node)
      (lower path signatures scope node')

private theorem moved_lowerAll
    {nodes nodes' : List Node}
    (alike : ∀ node ∈ nodes, LowersAlike lefts rights path signatures scope node)
    (moved : List.Forall₂ (Node.Moved lefts rights) nodes nodes') :
    Failure.Moved lefts rights path Eq (lowerAll path signatures scope nodes)
      (lowerAll path signatures scope nodes') := by
  induction moved with
  | nil => exact .value rfl
  | cons first _ inductionHypothesis =>
      rw [List.forall_mem_cons] at alike
      rw [lowerAll, lowerAll]
      apply (alike.1 _ first).bind
      rintro value _ rfl
      apply (inductionHypothesis alike.2).bind
      rintro others _ rfl
      exact .value rfl

/-- An expression is lowered alike wherever its tokens stand. -/
theorem moved_lower (formed : Formed names node) :
    LowersAlike lefts rights path signatures scope node := by
  induction formed using Formed.induction with
  | leaf x _ _ simple =>
      intro node' moved
      exact moved_lower_leaf simple moved
  | binary symbol left operator right _ _ _ isBinary _ alikeLeft alikeRight =>
      intro node' moved
      obtain ⟨children', rfl, same⟩ := moved.exists_of_rule
      simp only [List.forall₂_cons_left_iff, List.forall₂_nil_left_iff] at same
      obtain ⟨left', _, movedLeft, ⟨operator', _, movedOperator, ⟨right', _, movedRight, rfl, rfl⟩,
        rfl⟩, rfl⟩ := same
      rcases isBinary with rfl | rfl <;>
      · rw [Node.rule, Node.rule, lower, lower]
        apply (moved_operatorOf movedOperator).bind
        rintro operation _ rfl
        apply (alikeLeft _ movedLeft).bind
        rintro first _ rfl
        apply (alikeRight _ movedRight).bind
        rintro second _ rfl
        exact .value rfl
  | signed sign operand _ _ _ alike =>
      intro node' moved
      obtain ⟨children', rfl, same⟩ := moved.exists_of_rule
      simp only [List.forall₂_cons_left_iff, List.forall₂_nil_left_iff] at same
      obtain ⟨sign', _, movedSign, ⟨operand', _, movedOperand, rfl, rfl⟩, rfl⟩ := same
      rw [Node.rule, Node.rule, lower, lower]
      apply (moved_operatorOf movedSign).bind
      rintro operation _ rfl
      apply (alike _ movedOperand).bind
      rintro value _ rfl
      exact .value rfl
  | call callee arguments _ _ _ _ alike =>
      intro node' moved
      obtain ⟨children', rfl, same⟩ := moved.exists_of_rule
      obtain ⟨callee', arguments', movedCallee, others, rfl⟩ := List.forall₂_cons_left_iff.mp same
      rw [Node.rule, Node.rule, lower, lower]
      exact moved_lowerCall movedCallee (moved_lowerAll alike others)
  | conditional keyword condition consequence alternative _ _ _ _ _ alike₁ alike₂ alike₃ =>
      intro node' moved
      obtain ⟨children', rfl, same⟩ := moved.exists_of_rule
      simp only [List.forall₂_cons_left_iff, List.forall₂_nil_left_iff] at same
      obtain ⟨keyword', _, _, ⟨condition', _, moved₁, ⟨consequence', _, moved₂, ⟨alternative', _,
        moved₃, rfl, rfl⟩, rfl⟩, rfl⟩, rfl⟩ := same
      rw [Node.rule, Node.rule, lower, lower]
      apply (alike₁ _ moved₁).bind
      rintro first _ rfl
      apply (alike₂ _ moved₂).bind
      rintro second _ rfl
      apply (alike₃ _ moved₃).bind
      rintro third _ rfl
      exact .value rfl
  | group opening inner closing _ _ _ _ alike =>
      intro node' moved
      obtain ⟨children', rfl, same⟩ := moved.exists_of_rule
      simp only [List.forall₂_cons_left_iff] at same
      obtain ⟨opening', _, _, ⟨inner', _, movedInner, _, rfl⟩, rfl⟩ := same
      rw [Node.rule, Node.rule, lower, lower]
      exact alike _ movedInner

private theorem moved_parameterNodes (moved : node.Moved lefts rights node') :
    List.Forall₂ (Node.Moved lefts rights) (parameterNodes node) (parameterNodes node') := by
  unfold parameterNodes
  rw [← moved.children.length_eq]
  exact List.forall₂_take _ (List.forall₂_drop _ moved.children)

private theorem moved_signaturesFrom
    {definitions definitions' : List Node} (found : Signatures)
    (moved : List.Forall₂ (Node.Moved lefts rights) definitions definitions') :
    Failure.Moved lefts rights path Eq (signaturesFrom path found definitions)
      (signaturesFrom path found definitions') := by
  induction moved generalizing found with
  | nil => exact .value rfl
  | cons first _ inductionHypothesis =>
      rw [signaturesFrom, signaturesFrom]
      apply (moved_childAt first 1).bind
      intro name name' movedName
      rw [← movedName.text, ← (moved_parameterNodes first).length_eq]
      split
      · exact moved_refuse movedName
      · exact inductionHypothesis _

private theorem moved_parametersFrom
    {parameters parameters' : List Node} (found : List String)
    (moved : List.Forall₂ (Node.Moved lefts rights) parameters parameters') :
    Failure.Moved lefts rights path Eq (parametersFrom path found parameters)
      (parametersFrom path found parameters') := by
  induction moved generalizing found with
  | nil => exact .value rfl
  | cons first _ inductionHypothesis =>
      rw [parametersFrom, parametersFrom, ← first.text]
      split
      · exact moved_refuse first
      · exact inductionHypothesis _

private theorem moved_lowerFunction
    (sentence : Sentence names node) (isDefinition : node.symbol = .functionDef)
    (moved : node.Moved lefts rights node') :
    Failure.Moved lefts rights path Eq (lowerFunction path signatures node)
      (lowerFunction path signatures node') := by
  obtain ⟨name, parameters, body, outline⟩ := exists_outline sentence isDefinition
  obtain ⟨body', isBody', movedBody⟩ := exists_lastChild moved outline.isBody
  rw [lowerFunction, lowerFunction, isBody']
  apply (moved_parametersFrom [] (moved_parameterNodes moved)).bind
  rintro scope _ rfl
  have isBody : lastChild node = .ok body := by
    unfold lastChild
    rw [outline.isBody]
  rw [isBody]
  apply (moved_lower outline.formed _ movedBody).bind
  rintro value _ rfl
  apply (moved_childAt moved 1).bind
  intro name name' movedName
  rw [← movedName.text]
  exact .value rfl

private theorem moved_lowerFunctions
    {definitions definitions' : List Node}
    (sentences : ∀ definition ∈ definitions,
      Sentence names definition ∧ definition.symbol = .functionDef)
    (moved : List.Forall₂ (Node.Moved lefts rights) definitions definitions') :
    Failure.Moved lefts rights path Eq (lowerFunctions path signatures definitions)
      (lowerFunctions path signatures definitions') := by
  induction moved with
  | nil => exact .value rfl
  | cons first _ inductionHypothesis =>
      obtain ⟨⟨sentence, isDefinition⟩, others⟩ := List.forall_mem_cons.mp sentences
      rw [lowerFunctions, lowerFunctions]
      apply (moved_lowerFunction sentence isDefinition first).bind
      rintro function _ rfl
      apply (inductionHypothesis others).bind
      rintro functions _ rfl
      exact .value rfl

private theorem moved_lowerStatements
    {bodies bodies' : List Node} (declared : List String)
    (sentences : ∀ body ∈ bodies, Sentence names body)
    (moved : List.Forall₂ (Node.Moved lefts rights) bodies bodies') :
    Failure.Moved lefts rights path Eq (lowerStatements path signatures declared bodies)
      (lowerStatements path signatures declared bodies') := by
  induction moved generalizing declared with
  | nil => exact .value rfl
  | @cons body body' rest rest' first _ inductionHypothesis =>
      obtain ⟨sentence, others⟩ := List.forall_mem_cons.mp sentences
      rw [lowerStatements, lowerStatements, ← first.symbol]
      cases sentence with
      | functionDef => exact inductionHypothesis declared others
      | @variableDecl _ _ _ value _ _ formed =>
          obtain ⟨value', isValue', movedValue⟩ := exists_childAt first
            (rfl : childAt _ 3 = Except.ok value)
          dsimp only [Node.rule, Node.symbol]
          apply (moved_childAt first 1).bind
          intro name name' movedName
          rw [← movedName.text, isValue']
          split
          · exact moved_refuse movedName
          · split
            · exact moved_refuse movedName
            · apply (moved_lower formed _ movedValue).bind
              rintro expression _ rfl
              apply (inductionHypothesis _ others).bind
              rintro statements _ rfl
              exact .value rfl
      | @outputStmt _ value formed =>
          obtain ⟨value', isValue', movedValue⟩ := exists_childAt first
            (rfl : childAt _ 1 = Except.ok value)
          dsimp only [Node.rule, Node.symbol]
          rw [isValue']
          apply (moved_lower formed _ movedValue).bind
          rintro expression _ rfl
          apply (inductionHypothesis _ others).bind
          rintro statements _ rfl
          exact .value rfl

/-- Moved nodes have the same symbols, so the same of them are selected. -/
theorem moved_filter
    {nodes nodes' : List Node} (symbol : Symbol)
    (moved : List.Forall₂ (Node.Moved lefts rights) nodes nodes') :
    List.Forall₂ (Node.Moved lefts rights) (nodes.filter (·.symbol == symbol))
      (nodes'.filter (·.symbol == symbol)) := by
  apply List.rel_filter _ moved
  intro child child' movedChild
  dsimp only
  rw [movedChild.symbol]

private theorem moved_statementBodies
    {statements statements' : List Node}
    (moved : List.Forall₂ (Node.Moved lefts rights) statements statements') :
    Failure.Moved lefts rights path (List.Forall₂ (Node.Moved lefts rights))
      (statementBodies statements) (statementBodies statements') := by
  induction moved with
  | nil => exact .value .nil
  | cons first _ inductionHypothesis =>
      rw [statementBodies, statementBodies]
      apply (moved_childAt first 0).bind
      intro body body' movedBody
      apply inductionHypothesis.bind
      intro bodies bodies' movedBodies
      exact .value (.cons movedBody movedBodies)

/-- The program of a tree does not depend on where its tokens stand. -/
theorem moved_ofNode
    (regular : node.Regular) (branch : node.IsBranch [.program])
    (moved : node.Moved lefts rights node') (path : Option String) :
    Failure.Moved lefts rights path Eq (ofNode path node) (ofNode path node') := by
  obtain ⟨bodies, isBodies, sentences⟩ := exists_bodies regular branch
  have definitions := definitions_of_sentences sentences
  have statements : List.Forall₂ (Node.Moved lefts rights) node.statements node'.statements :=
    moved_filter .statement moved.children
  have found : Failure.Moved lefts rights path _ _ _ := moved_statementBodies statements
  rw [isBodies] at found
  rw [ofNode, ofNode, isBodies]
  generalize statementBodies node'.statements = found' at found ⊢
  cases found with
  | @value _ bodies' movedBodies =>
      have movedDefinitions := moved_filter .functionDef movedBodies
      apply (moved_signaturesFrom [] movedDefinitions).bind
      rintro signatures _ rfl
      apply (moved_lowerFunctions definitions movedDefinitions).bind
      rintro functions _ rfl
      apply (moved_lowerStatements [] sentences movedBodies).bind
      rintro statements _ rfl
      exact .value rfl

end RomanScript.Program
