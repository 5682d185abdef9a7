import RomanScript.Proofs.Node.Shape
import RomanScript.Proofs.Token.Scanned
import RomanScript.Program.Lowering

/-!
# What lowering reports

A tree that was made by the rules of the grammar and whose numerals can be read is lowered to a
program, or the name of one of its identifiers is reported. So the checks of the lowering that guard
against other trees are never needed for it.
-/

namespace RomanScript

inductive Problem.Concerns (name : String) : Problem → Prop
  | functionRedefined : Concerns name (.functionRedefined name)
  | variableRedefined : Concerns name (.variableRedefined name)
  | parameterRepeated : Concerns name (.parameterRepeated name)
  | functionUndefined : Concerns name (.functionUndefined name)
  | variableUndefined : Concerns name (.variableUndefined name)
  | arityMismatch (expected got : Nat) : Concerns name (.arityMismatch name expected got)

theorem Problem.Concerns.stage
    {name : String} {problem : Problem} (concerns : problem.Concerns name) :
    problem.stage = some .semantic := by
  cases concerns <;> rfl

namespace Program

/-- A value, or a diagnostic about the name of one of some identifiers. -/
inductive Judged {α : Type} (path : Option String) (names : List Token) : Except Failure α → Prop
  | value (value : α) : Judged path names (.ok value)
  | problem {token : Token} {problem : Problem} :
      token ∈ names → token.symbol = .identifier → problem.Concerns token.text →
      Judged path names (.error (.diagnostic ⟨problem, token.line, token.column, path⟩))

variable {α β : Type} {path : Option String} {names : List Token} {signatures : Signatures}
    {scope : List String}

namespace Judged

private theorem bind
    {first : Except Failure α} {next : α → Except Failure β} (begun : Judged path names first)
    (continued : ∀ value, Judged path names (next value)) :
    Judged path names (first >>= next) := by
  cases begun with
  | value value => exact continued value
  | problem member identifier concerns => exact .problem member identifier concerns

private theorem given
    {value : α} {next : α → Except Failure β} (continued : Judged path names (next value)) :
    Judged path names ((.ok value : Except Failure α) >>= next) :=
  continued

private theorem refuse
    {token : Token} {problem : Problem} (member : token ∈ names)
    (identifier : token.symbol = .identifier) (concerns : problem.Concerns token.text) :
    Judged path names (Program.refuse path problem (.leaf token) : Except Failure α) :=
  .problem member identifier concerns

end Judged

/-- An expression that the rules of the grammar make of some tokens. -/
structure Formed (names : List Token) (node : Node) : Prop where
  regular : node.Regular
  expression : node.IsExpression Node.sumRules
  included : node.leaves ⊆ names

/-- What the rules for statements make of some tokens. -/
inductive Sentence (names : List Token) : Node → Prop
  | functionDef {keyword name equals : Token} {parameters : List Token} {body : Node} :
      name ∈ names → name.symbol = .identifier →
      (∀ parameter ∈ parameters, parameter ∈ names ∧ parameter.symbol = .identifier) →
      equals.symbol = .equals → Formed names body →
      Sentence names (.rule .functionDef
        (.leaf keyword :: .leaf name :: parameters.map .leaf ++ [.leaf equals, body]))
  | variableDecl {keyword name equals : Token} {value : Node} :
      name ∈ names → name.symbol = .identifier → Formed names value →
      Sentence names (.rule .variableDecl [.leaf keyword, .leaf name, .leaf equals, value])
  | outputStmt {keyword : Token} {value : Node} :
      Formed names value → Sentence names (.rule .outputStmt [.leaf keyword, value])

/-- A part of a regular node, made of some tokens. -/
theorem formed_of_child
    {symbol : Symbol} {children : List Node} {child : Node} {rules : List Symbol}
    (regular : ∀ child ∈ children, child.Regular) (member : child ∈ children)
    (expression : child.IsExpression rules) (tighter : rules ⊆ Node.sumRules)
    (included : (Node.rule symbol children).leaves ⊆ names) : Formed names child := by
  refine ⟨regular child member, expression.mono tighter, fun token inChild => included ?_⟩
  rw [Node.leaves_rule]
  exact List.mem_flatMap.mpr ⟨child, member, inChild⟩

/-- What holds of the leaves among the expressions, and of every branch if it holds of the
expressions right below, holds of all expressions. -/
@[elab_as_elim]
theorem Formed.induction
    {motive : (node : Node) → Formed names node → Prop}
    (leaf : ∀ token (formed : Formed names (.leaf token)),
      token ∈ names → token.symbol ∈ Node.simple → motive _ formed)
    (binary : ∀ symbol left operator right
      (formed : Formed names (.rule symbol [left, .leaf operator, right])) formedLeft formedRight,
      symbol = .sum ∨ symbol = .product → operator.symbol ∈ [.plus, .minus, .times, .divide] →
      motive left formedLeft → motive right formedRight → motive _ formed)
    (signed : ∀ sign operand (formed : Formed names (.rule .signed [.leaf sign, operand]))
      formedOperand, sign.symbol ∈ [.plus, .minus, .times, .divide] →
      motive operand formedOperand → motive _ formed)
    (call : ∀ callee arguments (formed : Formed names (.rule .call (.leaf callee :: arguments)))
      (formedArguments : ∀ argument ∈ arguments, Formed names argument),
      callee ∈ names → callee.symbol = .identifier →
      (∀ argument member, motive argument (formedArguments argument member)) → motive _ formed)
    (conditional : ∀ keyword condition consequence alternative (formed : Formed names
      (.rule .conditional [.leaf keyword, condition, consequence, alternative]))
      formedCondition formedConsequence formedAlternative, keyword.symbol = .keyword .choose →
      motive condition formedCondition → motive consequence formedConsequence →
      motive alternative formedAlternative → motive _ formed)
    (group : ∀ opening inner closing
      (formed : Formed names (.rule .group [.leaf opening, inner, .leaf closing])) formedInner,
      opening.symbol = .openParen → closing.symbol = .closeParen →
      motive inner formedInner → motive _ formed)
    {node : Node} (formed : Formed names node) : motive node formed := by
  obtain ⟨regular, expression, included⟩ := formed
  induction regular with
  | leaf token => exact leaf token _ (included (by simp)) expression
  | @rule symbol children made regular inductionHypothesis =>
      have isRule : symbol ∈ Node.sumRules := expression
      -- Below a branch stand tighter rules, and whatever those make is an expression again.
      have formed {rules : List Symbol} {child : Node} (member : child ∈ children)
          (tighter : rules ⊆ Node.sumRules) (expression : child.IsExpression rules) :
          Formed names child := formed_of_child regular member expression tighter included
      have holds (child : Node) (member : child ∈ children) (formed : Formed names child) :
          motive child formed :=
        inductionHypothesis child member formed.expression formed.included
      cases made with
      | program | statement | functionDef | variableDecl | outputStmt =>
          exact absurd isRule (by decide)
      | sum left operates right =>
          apply binary _ _ _ _ _ (formed (by simp) (by decide) left)
            (formed (by simp) (by decide) right) (.inl rfl)
            (List.mem_append_left [Symbol.times, .divide] operates) <;> exact holds _ (by simp) _
      | product left operates right =>
          apply binary _ _ _ _ _ (formed (by simp) (by decide) left)
            (formed (by simp) (by decide) right) (.inr rfl)
            (List.mem_append_right [Symbol.plus, .minus] operates) <;> exact holds _ (by simp) _
      | signed isSign operand =>
          exact signed _ _ _ (formed (by simp) (by decide) operand)
            (List.mem_append_left [Symbol.times, .divide] isSign) (holds _ (by simp) _)
      | call isName _ areAtoms =>
          exact call _ _ _ (fun argument member =>
            formed (.tail _ member) (by decide) (areAtoms argument member)) (included (by simp))
            isName fun argument member => holds argument (.tail _ member) _
      | conditional isKeyword condition consequence alternative =>
          apply conditional _ _ _ _ _ (formed (by simp) (by decide) condition)
            (formed (by simp) (by decide) consequence) (formed (by simp) (by decide) alternative)
            isKeyword <;> exact holds _ (by simp) _
      | group isOpening inner isClosing =>
          exact group _ _ _ _ (formed (by simp) (by decide) inner) isOpening isClosing
            (holds _ (by simp) _)

private theorem judged_lowerCall
    {callee : Token} {arguments : Except Failure (List Expression)} (member : callee ∈ names)
    (identifier : callee.symbol = .identifier) (judged : Judged path names arguments) :
    Judged path names (lowerCall path signatures (.leaf callee) arguments) := by
  unfold lowerCall
  split
  · exact .refuse member identifier .functionUndefined
  · refine judged.bind fun arguments => ?_
    split
    · exact .value _
    · exact .refuse member identifier (.arityMismatch _ _)

private theorem judged_lowerName
    {name : Token} (member : name ∈ names) (identifier : name.symbol = .identifier) :
    Judged path names (lowerName path signatures scope (.leaf name)) := by
  unfold lowerName
  split
  · exact .value _
  · split
    · exact judged_lowerCall member identifier (.value [])
    · exact .refuse member identifier .variableUndefined

private theorem judged_lowerSimple
    {token : Token} (member : token ∈ names) (simple : token.symbol ∈ Node.simple)
    (legible : token.Legible) :
    Judged path names (lowerSimple path signatures scope (.leaf token)) := by
  simp only [Node.simple, List.mem_cons, List.not_mem_nil, or_false] at simple
  rcases simple with isNumeral | isName | isInput
  · have numeral := legible isNumeral
    rw [← Numeral.isSome_value?, Option.isSome_iff_exists] at numeral
    obtain ⟨value, isValue⟩ := numeral
    simp only [lowerSimple, Node.symbol, isNumeral, Node.text, isValue]
    exact .value _
  · simp only [lowerSimple, Node.symbol, isName]
    exact judged_lowerName member isName
  · simp only [lowerSimple, Node.symbol, isInput]
    exact .value _

private theorem judged_operatorOf
    {operator : Token} (isOperator : operator.symbol ∈ [.plus, .minus, .times, .divide]) :
    Judged path names (operatorOf (.leaf operator)) := by
  simp only [List.mem_cons, List.not_mem_nil, or_false] at isOperator
  rcases isOperator with symbol | symbol | symbol | symbol <;>
    · simp only [operatorOf, Node.symbol, symbol]
      exact .value _

private theorem judged_lowerAll
    {nodes : List Node}
    (judged : ∀ node ∈ nodes, Judged path names (lower path signatures scope node)) :
    Judged path names (lowerAll path signatures scope nodes) := by
  induction nodes with
  | nil => exact .value []
  | cons node rest inductionHypothesis =>
      rw [List.forall_mem_cons] at judged
      rw [lowerAll]
      refine judged.1.bind fun first => ?_
      exact (inductionHypothesis judged.2).bind fun others => .value _

private theorem judged_binary
    {left right : Node} {operator : Token}
    (isOperator : operator.symbol ∈ [.plus, .minus, .times, .divide])
    (judgedLeft : Judged path names (lower path signatures scope left))
    (judgedRight : Judged path names (lower path signatures scope right)) :
    Judged path names (do
      let operator ← operatorOf (.leaf operator)
      let left ← lower path signatures scope left
      let right ← lower path signatures scope right
      return Expression.binary operator left right) :=
  (judged_operatorOf isOperator).bind fun _ =>
    judgedLeft.bind fun _ => judgedRight.bind fun _ => .value _

/-- Every expression that the rules of the grammar make is lowered or has a wrong name in it. -/
theorem judged_lower
    {node : Node} (formed : Formed names node) (legible : ∀ token ∈ names, token.Legible) :
    Judged path names (lower path signatures scope node) := by
  induction formed using Formed.induction with
  | leaf token _ member simple => exact judged_lowerSimple member simple (legible token member)
  | binary symbol left operator right _ _ _ isBinary isOperator judgedLeft judgedRight =>
      rcases isBinary with rfl | rfl <;> rw [Node.rule, lower] <;>
        exact judged_binary isOperator judgedLeft judgedRight
  | signed sign operand _ _ isSign judged =>
      rw [Node.rule, lower]
      exact (judged_operatorOf isSign).bind fun _ => judged.bind fun _ => .value _
  | call callee arguments _ _ member isName judged =>
      rw [Node.rule, lower]
      exact judged_lowerCall member isName (judged_lowerAll judged)
  | conditional keyword condition consequence alternative _ _ _ _ _ first second third =>
      rw [Node.rule, lower]
      exact first.bind fun _ => second.bind fun _ => third.bind fun _ => .value _
  | group opening inner closing _ _ _ _ judged =>
      rw [Node.rule, lower]
      exact judged

section Definitions

variable {keyword name equals : Token} {parameters : List Token} {body : Node}

theorem parameterNodes_functionDef :
    parameterNodes (.rule .functionDef
      (.leaf keyword :: .leaf name :: parameters.map .leaf ++ [.leaf equals, body])) =
        parameters.map .leaf := by
  simp [parameterNodes, Node.rule, Node.children]

theorem lastChild_functionDef :
    lastChild (.rule .functionDef
      (.leaf keyword :: .leaf name :: parameters.map .leaf ++ [.leaf equals, body])) =
        .ok body := by
  simp [lastChild, Node.rule, Node.children, List.getLast?_cons]

end Definitions

def nameOf? (definition : Node) : Option Node :=
  definition.children[1]?

def parametersOf (definition : Node) : List Node :=
  (definition.children.drop 2).takeWhile fun child => child.symbol == .identifier

/-- The parts of the definition of a function. -/
structure Outline (names : List Token) (definition name : Node) (parameters : List Node)
    (body : Node) : Prop where
  isName : nameOf? definition = some name
  areParameters : parametersOf definition = parameters
  stand : parameterNodes definition = parameters
  isBody : definition.children.getLast? = some body
  formed : Formed names body

/-- The parameters stand between the name and the sign before the body, and are what follows the
name up to the first token that is no name. -/
theorem exists_outline
    {definition : Node} (sentence : Sentence names definition)
    (isDefinition : definition.symbol = .functionDef) :
    ∃ name parameters body, Outline names definition name parameters body := by
  cases sentence with
  | variableDecl | outputStmt => cases isDefinition
  | @functionDef keyword name equals parameters body _ _ identifiers isEquals formed =>
      have areNames : ∀ child ∈ parameters.map Node.leaf,
          (child.symbol == .identifier) = true := by
        simpa [Node.symbol] using fun parameter member => (identifiers parameter member).2
      have upToEquals : (parameters.map Node.leaf ++ [.leaf equals, body]).takeWhile
          (fun child => child.symbol == .identifier) = parameters.map .leaf := by
        rw [List.takeWhile_append_of_pos areNames, List.takeWhile_cons_of_neg, List.append_nil]
        simp [Node.symbol, isEquals]
      exact ⟨.leaf name, parameters.map .leaf, body, {
        isName := rfl
        areParameters := upToEquals
        stand := parameterNodes_functionDef
        isBody := by simp [Node.rule, Node.children, List.getLast?_cons]
        formed := formed }⟩

private theorem judged_signaturesFrom
    {definitions : List Node} (found : Signatures)
    (sentences : ∀ definition ∈ definitions,
      Sentence names definition ∧ definition.symbol = .functionDef) :
    Judged path names (signaturesFrom path found definitions) := by
  induction definitions generalizing found with
  | nil => exact .value found
  | cons definition rest inductionHypothesis =>
      obtain ⟨⟨sentence, isDefinition⟩, others⟩ := List.forall_mem_cons.mp sentences
      cases sentence with
      | variableDecl | outputStmt => cases isDefinition
      | @functionDef _ name _ _ _ member identifier _ _ _ =>
          rw [signaturesFrom]
          apply Judged.given
          split
          · exact .refuse member identifier .functionRedefined
          · exact inductionHypothesis _ others

private theorem judged_parametersFrom
    {parameters : List Token} (found : List String)
    (identifiers : ∀ parameter ∈ parameters, parameter ∈ names ∧ parameter.symbol = .identifier) :
    Judged path names (parametersFrom path found (parameters.map .leaf)) := by
  induction parameters generalizing found with
  | nil => exact .value found
  | cons parameter rest inductionHypothesis =>
      obtain ⟨⟨member, identifier⟩, others⟩ := List.forall_mem_cons.mp identifiers
      rw [List.map_cons, parametersFrom]
      split
      · exact .refuse member identifier .parameterRepeated
      · exact inductionHypothesis _ others

section Legible

variable (legible : ∀ token ∈ names, token.Legible)

include legible

theorem judged_lowerFunctions
    {definitions : List Node} (sentences : ∀ definition ∈ definitions,
      Sentence names definition ∧ definition.symbol = .functionDef) :
    Judged path names (lowerFunctions path signatures definitions) := by
  induction definitions with
  | nil => exact .value []
  | cons definition rest inductionHypothesis =>
      obtain ⟨⟨sentence, isDefinition⟩, others⟩ := List.forall_mem_cons.mp sentences
      rw [lowerFunctions]
      refine Judged.bind ?_ fun _ => (inductionHypothesis others).bind fun _ => .value _
      cases sentence with
      | variableDecl | outputStmt => cases isDefinition
      | @functionDef _ name _ _ body _ _ identifiers _ formed =>
          rw [lowerFunction, parameterNodes_functionDef, lastChild_functionDef]
          refine (judged_parametersFrom [] identifiers).bind fun parameters => ?_
          apply Judged.given
          refine (judged_lower formed legible).bind fun lowered => ?_
          apply Judged.given
          exact .value _

private theorem judged_lowerStatements
    {bodies : List Node} (declared : List String)
    (sentences : ∀ body ∈ bodies, Sentence names body) :
    Judged path names (lowerStatements path signatures declared bodies) := by
  induction bodies generalizing declared with
  | nil => exact .value []
  | cons body rest inductionHypothesis =>
      obtain ⟨sentence, others⟩ := List.forall_mem_cons.mp sentences
      rw [lowerStatements]
      cases sentence with
      | functionDef => exact inductionHypothesis declared others
      | @variableDecl _ name _ value member identifier formed =>
          apply Judged.given
          split
          · exact .refuse member identifier .functionRedefined
          · split
            · exact .refuse member identifier .variableRedefined
            · apply Judged.given
              refine (judged_lower formed legible).bind fun _ => ?_
              exact (inductionHypothesis _ others).bind fun _ => .value _
      | @outputStmt _ value formed =>
          apply Judged.given
          refine (judged_lower formed legible).bind fun _ => ?_
          exact (inductionHypothesis declared others).bind fun _ => .value _

end Legible

theorem sentence_of_regular
    {body : Node} (regular : body.Regular)
    (branch : body.IsBranch [.functionDef, .variableDecl, .outputStmt])
    (included : body.leaves ⊆ names) : Sentence names body := by
  cases regular with
  | leaf token => exact branch.elim
  | @rule symbol children made regular =>
      have isStatement : symbol ∈ [.functionDef, .variableDecl, .outputStmt] := branch
      cases made with
      | functionDef _ identifier identifiers isEquals expression =>
          refine .functionDef (included (by simp)) identifier (fun parameter member => ?_)
            isEquals ?_
          · refine ⟨included ?_, identifiers parameter member⟩
            simp [member]
          · exact formed_of_child regular (by simp) expression (by decide) included
      | variableDecl _ identifier _ expression =>
          exact .variableDecl (included (by simp)) identifier
            (formed_of_child regular (by simp) expression (by decide) included)
      | outputStmt _ expression =>
          exact .outputStmt (formed_of_child regular (by simp) expression (by decide) included)
      | _ => exact absurd isStatement (by decide)

theorem statements_program
    {statements : List Node} {finish : Token}
    (branches : ∀ statement ∈ statements, statement.IsBranch [.statement])
    (isEnd : finish.symbol = .endOfText) :
    (Node.rule .program (statements ++ [.leaf finish])).statements = statements := by
  have all : ∀ statement ∈ statements, (statement.symbol == .statement) = true := by
    intro statement member
    simpa using (branches statement member).symbol_mem
  change (statements ++ [Node.leaf finish]).filter (fun child => child.symbol == .statement) = _
  rw [List.filter_append, List.filter_eq_self.mpr all]
  simp [Node.symbol, isEnd]

private theorem exists_sentences
    {statements : List Node} (regular : ∀ statement ∈ statements, statement.Regular)
    (branches : ∀ statement ∈ statements, statement.IsBranch [.statement])
    (included : ∀ statement ∈ statements, statement.leaves ⊆ names) :
    ∃ bodies, statementBodies statements = .ok bodies ∧ ∀ body ∈ bodies, Sentence names body := by
  induction statements with
  | nil => exact ⟨[], rfl, nofun⟩
  | cons statement rest inductionHypothesis =>
      rw [List.forall_mem_cons] at regular branches included
      obtain ⟨bodies, isBodies, sentences⟩ :=
        inductionHypothesis regular.2 branches.2 included.2
      have first : ∃ body, childAt statement 0 = .ok body ∧ Sentence names body := by
        obtain ⟨regular, _⟩ := regular
        cases regular with
        | leaf token => exact branches.1.elim
        | @rule symbol children made regular =>
            have isStatement : symbol ∈ [.statement] := branches.1
            cases made with
            | @statement inner branch =>
                refine ⟨inner, rfl, sentence_of_regular (regular inner (.head _)) branch ?_⟩
                simpa using included.1
            | _ => exact absurd isStatement (by decide)
      obtain ⟨body, isBody, sentence⟩ := first
      refine ⟨body :: bodies, ?_, List.forall_mem_cons.mpr ⟨sentence, sentences⟩⟩
      rw [statementBodies, isBody, isBodies]
      rfl

theorem exists_bodies
    {root : Node} (regular : root.Regular) (branch : root.IsBranch [.program]) :
    ∃ bodies, statementBodies root.statements = .ok bodies ∧
      ∀ body ∈ bodies, Sentence root.leaves body := by
  cases regular with
  | leaf token => exact branch.elim
  | @rule symbol children made regular =>
      have isProgram : symbol ∈ [.program] := branch
      cases made with
      | @program statements finish branches isEnd =>
          rw [statements_program branches isEnd]
          refine exists_sentences
            (fun statement member => regular statement (List.mem_append_left _ member)) branches ?_
          intro statement member token inStatement
          simpa using .inl ⟨statement, member, inStatement⟩
      | _ => exact absurd isProgram (by decide)

/-- The definitions among some sentences. -/
theorem definitions_of_sentences
    {bodies : List Node} (sentences : ∀ body ∈ bodies, Sentence names body) :
    ∀ definition ∈ bodies.filter (·.symbol == .functionDef),
      Sentence names definition ∧ definition.symbol = .functionDef := by
  intro definition member
  obtain ⟨inBodies, isDefinition⟩ := List.mem_filter.mp member
  exact ⟨sentences definition inBodies, by simpa using isDefinition⟩

/-- The tree of a program is lowered, or one of its identifiers names something wrong. -/
theorem judged_ofNode
    {root : Node} (regular : root.Regular) (branch : root.IsBranch [.program])
    (legible : ∀ token ∈ root.leaves, token.Legible) :
    Judged path root.leaves (ofNode path root) := by
  obtain ⟨bodies, isBodies, sentences⟩ := exists_bodies regular branch
  have definitions := definitions_of_sentences sentences
  rw [ofNode, isBodies]
  apply Judged.given
  refine (judged_signaturesFrom [] definitions).bind fun signatures => ?_
  refine (judged_lowerFunctions legible definitions).bind fun functions => ?_
  exact (judged_lowerStatements legible [] sentences).bind fun statements => .value _

end Program

end RomanScript
