import RomanScript.Proofs.Node.Levels

/-!
# Shapes of nodes

What the grammar says about the children of a branch, rule by rule, and what follows for a node all
of whose branches keep to it: its text joins the texts of its leaves, it begins where its first leaf
begins, and all its recorded heights are true.
-/

namespace RomanScript.Node

open Grammar

def token? : Node → Option Token
  | leaf token => some token
  | branch _ _ _ _ _ _ => none

/-- The tokens of the leaves on a walk, so from left to right. -/
def leaves (node : Node) : List Token :=
  node.walk.filterMap token?

theorem walkAll_eq_flatMap (nodes : List Node) : walkAll nodes = nodes.flatMap walk := by
  induction nodes with
  | nil => rfl
  | cons node rest inductionHypothesis =>
      rw [walkAll, inductionHypothesis, List.flatMap_cons]

@[simp]
theorem leaves_leaf (token : Token) : (leaf token).leaves = [token] := by
  simp [leaves, walk, token?]

@[simp]
theorem leaves_rule (symbol : Symbol) (children : List Node) :
    (rule symbol children).leaves = children.flatMap leaves := by
  rw [leaves, rule, walk, List.filterMap_cons_none rfl, walkAll_eq_flatMap, List.filterMap_flatMap]
  rfl

@[simp]
theorem flatMap_leaves_map_leaf (tokens : List Token) :
    (tokens.map leaf).flatMap leaves = tokens := by
  simp [List.flatMap_map]

private theorem join_texts
    {nodes : List Node}
    (texts : ∀ node ∈ nodes, node.text = String.join (node.leaves.map Token.text)) :
    String.join (nodes.map text) = String.join ((nodes.flatMap leaves).map Token.text) := by
  induction nodes with
  | nil => rfl
  | cons node rest inductionHypothesis =>
      have restTexts := inductionHypothesis fun other member => texts other (.tail _ member)
      rw [List.map_cons, String.join_cons, List.flatMap_cons, List.map_append,
        String.join_append, ← texts node (.head _), restTexts]

/-- The leaves that are expressions by themselves. -/
def simple : List Symbol := [.numeral, .identifier, .keyword .input]

/-- The rules of atoms, and then of ever looser expressions. -/
def atomRules : List Symbol := [.group]

def termRules : List Symbol := .call :: .conditional :: atomRules

def signedRules : List Symbol := .signed :: termRules

def productRules : List Symbol := .product :: signedRules

/-- The rules of sums, which are those of all expressions. -/
def sumRules : List Symbol := .sum :: productRules

def IsExpression (rules : List Symbol) : Node → Prop
  | leaf token => token.symbol ∈ simple
  | branch symbol _ _ _ _ _ => symbol ∈ rules

def IsBranch (rules : List Symbol) : Node → Prop
  | leaf _ => False
  | branch symbol _ _ _ _ _ => symbol ∈ rules

theorem IsExpression.mono
    {rules more : List Symbol} {node : Node} (expression : node.IsExpression rules)
    (included : rules ⊆ more) :
    node.IsExpression more := by
  cases node with
  | leaf token => exact expression
  | branch symbol text line column height children => exact included expression

theorem IsBranch.symbol_mem
    {rules : List Symbol} {node : Node} (branch : node.IsBranch rules) : node.symbol ∈ rules := by
  cases node with
  | leaf token => exact branch.elim
  | branch symbol text line column height children => exact branch

/-- The children that the rules of the grammar allow. -/
inductive Instance : Symbol → List Node → Prop
  | program {statements : List Node} {finish : Token} :
      (∀ statement ∈ statements, statement.IsBranch [.statement]) →
      finish.symbol = .endOfText →
      Instance .program (statements ++ [leaf finish])
  | statement {inner : Node} :
      inner.IsBranch [.functionDef, .variableDecl, .outputStmt] →
      Instance .statement [inner]
  | functionDef {keyword name equals : Token} {parameters : List Token} {body : Node} :
      keyword.symbol = .keyword .define → name.symbol = .identifier →
      (∀ parameter ∈ parameters, parameter.symbol = .identifier) →
      equals.symbol = .equals → body.IsExpression sumRules →
      Instance .functionDef
        (leaf keyword :: leaf name :: parameters.map leaf ++ [leaf equals, body])
  | variableDecl {keyword name equals : Token} {value : Node} :
      keyword.symbol = .keyword .declare → name.symbol = .identifier →
      equals.symbol = .equals → value.IsExpression sumRules →
      Instance .variableDecl [leaf keyword, leaf name, leaf equals, value]
  | outputStmt {keyword : Token} {value : Node} :
      keyword.symbol = .keyword .output → value.IsExpression sumRules →
      Instance .outputStmt [leaf keyword, value]
  | sum {operator : Token} {left right : Node} :
      left.IsExpression sumRules → operator.symbol ∈ [.plus, .minus] →
      right.IsExpression productRules →
      Instance .sum [left, leaf operator, right]
  | product {operator : Token} {left right : Node} :
      left.IsExpression productRules → operator.symbol ∈ [.times, .divide] →
      right.IsExpression signedRules →
      Instance .product [left, leaf operator, right]
  | signed {sign : Token} {operand : Node} :
      sign.symbol ∈ [.plus, .minus] → operand.IsExpression signedRules →
      Instance .signed [leaf sign, operand]
  | call {callee : Token} {arguments : List Node} :
      callee.symbol = .identifier → arguments ≠ [] →
      (∀ argument ∈ arguments, argument.IsExpression atomRules) →
      Instance .call (leaf callee :: arguments)
  | conditional {keyword : Token} {condition consequence alternative : Node} :
      keyword.symbol = .keyword .choose → condition.IsExpression sumRules →
      consequence.IsExpression sumRules → alternative.IsExpression sumRules →
      Instance .conditional [leaf keyword, condition, consequence, alternative]
  | group {opening closing : Token} {inner : Node} :
      opening.symbol = .openParen → inner.IsExpression sumRules →
      closing.symbol = .closeParen →
      Instance .group [leaf opening, inner, leaf closing]

theorem Instance.children_ne_nil
    {symbol : Symbol} {children : List Node} (made : Instance symbol children) :
    children ≠ [] := by
  cases made <;> simp

/-- Every branch below a node, itself included, was made by a rule of the grammar. -/
inductive Regular : Node → Prop
  | leaf (token : Token) : Regular (leaf token)
  | rule {symbol : Symbol} {children : List Node} :
      Instance symbol children → (∀ child ∈ children, Regular child) →
      Regular (rule symbol children)

namespace Regular

variable {node : Node}

theorem walk (regular : node.Regular) : ∀ below ∈ node.walk, below.Regular := by
  induction regular with
  | leaf token =>
      intro below member
      rw [List.mem_singleton.mp member]
      exact .leaf token
  | @rule symbol children made regular inductionHypothesis =>
      intro below member
      rcases List.mem_cons.mp member with isTop | inChildren
      · rw [isTop]
        exact .rule made regular
      · obtain ⟨child, isChild, inChild⟩ := mem_walkAll inChildren
        exact inductionHypothesis child isChild below inChild

theorem made
    {symbol : Symbol} {text : String} {line column : Int} {height : Nat} {children : List Node}
    (regular : (branch symbol text line column height children).Regular) :
    Instance symbol children := by
  cases regular with
  | rule made _ => exact made

theorem exact (regular : node.Regular) : node.Exact := by
  induction regular with
  | leaf token => exact exact_leaf token
  | rule _ _ inductionHypothesis => exact exact_rule inductionHypothesis

theorem text_eq (regular : node.Regular) :
    node.text = String.join (node.leaves.map Token.text) := by
  induction regular with
  | leaf token => simp [text]
  | @rule symbol children _ _ inductionHypothesis =>
      rw [leaves_rule, ← join_texts inductionHypothesis]
      rfl

/-- A node begins where its first leaf begins. -/
theorem exists_first (regular : node.Regular) :
    ∃ first, node.leaves.head? = some first ∧ node.line = first.line ∧
      node.column = first.column := by
  induction regular with
  | leaf token => exact ⟨token, by simp, rfl, rfl⟩
  | @rule symbol children made _ inductionHypothesis =>
      cases children with
      | nil => exact absurd rfl made.children_ne_nil
      | cons child rest =>
          obtain ⟨first, isFirst, line, column⟩ := inductionHypothesis child (.head _)
          refine ⟨first, ?_, line, column⟩
          rw [leaves_rule, List.flatMap_cons, List.head?_append, isFirst]
          rfl

end Regular

end RomanScript.Node
