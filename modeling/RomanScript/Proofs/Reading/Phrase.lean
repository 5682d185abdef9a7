import RomanScript.Proofs.Node.Shape
import RomanScript.Proofs.Reading.Derivation

/-!
# Phrases

The grammar by itself: which tokens are a phrase of which kind, and which tree a phrase has. Nothing
is said here about positions, about what follows a phrase, or about the order in which alternatives
are tried. The tree of a phrase has its tokens as leaves and the shape that the grammar asks for.
-/

namespace RomanScript.Grammar

inductive Category where
  | atom
  | term
  | signed
  | chain (tier : Tier)
  | statement
  | program

abbrev Category.expression : Category := .chain .sum

def Tier.operandCategory : Tier → Category
  | product => .signed
  | sum => .chain .product

/-- The tokens of a phrase and the tree that it has. Repetitions come with the tokens and the tree
of every single part. -/
inductive Phrase : Category → List Token → Node → Prop
  | simple {token : Token} :
      token.symbol ∈ [.numeral, .identifier, .keyword .input] →
      Phrase .atom [token] (.leaf token)
  | group {opening closing : Token} {tokens : List Token} {inner : Node} :
      opening.symbol = .openParen → Phrase .expression tokens inner →
      closing.symbol = .closeParen →
      Phrase .atom (opening :: tokens ++ [closing])
        (.rule .group [.leaf opening, inner, .leaf closing])
  | call {callee : Token} {arguments : List (List Token × Node)} :
      callee.symbol = .identifier → arguments ≠ [] →
      (∀ argument ∈ arguments, Phrase .atom argument.1 argument.2) →
      Phrase .term (callee :: arguments.flatMap (·.1))
        (.rule .call (.leaf callee :: arguments.map (·.2)))
  | conditional {keyword : Token} {first second third : List Token}
      {condition consequence alternative : Node} :
      keyword.symbol = .keyword .choose → Phrase .expression first condition →
      Phrase .expression second consequence → Phrase .expression third alternative →
      Phrase .term (keyword :: (first ++ (second ++ third)))
        (.rule .conditional [.leaf keyword, condition, consequence, alternative])
  | alone {tokens : List Token} {node : Node} :
      Phrase .atom tokens node → Phrase .term tokens node
  | sign {sign : Token} {tokens : List Token} {operand : Node} :
      sign.symbol ∈ [.plus, .minus] → Phrase .signed tokens operand →
      Phrase .signed (sign :: tokens) (.rule .signed [.leaf sign, operand])
  | unsigned {tokens : List Token} {node : Node} :
      Phrase .term tokens node → Phrase .signed tokens node
  | operand {tier : Tier} {tokens : List Token} {node : Node} :
      Phrase tier.operandCategory tokens node → Phrase (.chain tier) tokens node
  | joined {tier : Tier} {operator : Token} {before behind : List Token} {left right : Node} :
      Phrase (.chain tier) before left → operator.symbol ∈ tier.operators →
      Phrase tier.operandCategory behind right →
      Phrase (.chain tier) (before ++ operator :: behind)
        (.rule tier.symbol [left, .leaf operator, right])
  | functionDef {keyword name equals : Token} {parameters tokens : List Token} {body : Node} :
      keyword.symbol = .keyword .define → name.symbol = .identifier →
      (∀ parameter ∈ parameters, parameter.symbol = .identifier) →
      equals.symbol = .equals → Phrase .expression tokens body →
      Phrase .statement (keyword :: name :: (parameters ++ equals :: tokens))
        (.rule .statement [.rule .functionDef
          (.leaf keyword :: .leaf name :: parameters.map .leaf ++ [.leaf equals, body])])
  | variableDecl {keyword name equals : Token} {tokens : List Token} {value : Node} :
      keyword.symbol = .keyword .declare → name.symbol = .identifier →
      equals.symbol = .equals → Phrase .expression tokens value →
      Phrase .statement (keyword :: name :: equals :: tokens)
        (.rule .statement
          [.rule .variableDecl [.leaf keyword, .leaf name, .leaf equals, value]])
  | outputStmt {keyword : Token} {tokens : List Token} {value : Node} :
      keyword.symbol = .keyword .output → Phrase .expression tokens value →
      Phrase .statement (keyword :: tokens)
        (.rule .statement [.rule .outputStmt [.leaf keyword, value]])
  | program {statements : List (List Token × Node)} {finish : Token} :
      (∀ statement ∈ statements, Phrase .statement statement.1 statement.2) →
      finish.symbol = .endOfText →
      Phrase .program (statements.flatMap (·.1) ++ [finish])
        (.rule .program (statements.map (·.2) ++ [.leaf finish]))

def Category.begins : Category → List Symbol
  | atom => atomStart
  | term => .keyword .choose :: atomStart
  | signed | chain _ => [.plus, .minus, .keyword .choose] ++ atomStart
  | statement => [.keyword .define, .keyword .declare, .keyword .output]
  | program => [.keyword .define, .keyword .declare, .keyword .output, .endOfText]

theorem Phrase.exists_head
    {category : Category} {tokens : List Token} {node : Node}
    (phrase : Phrase category tokens node) :
    ∃ token rest, tokens = token :: rest ∧ token.symbol ∈ category.begins := by
  induction phrase with
  | simple isSimple => exact ⟨_, _, rfl, List.mem_append_left [Symbol.openParen] isSimple⟩
  | group opening => exact ⟨_, _, rfl, by rw [opening]; decide⟩
  | call callee => exact ⟨_, _, rfl, by rw [callee]; decide⟩
  | conditional keyword => exact ⟨_, _, rfl, by rw [keyword]; decide⟩
  | alone _ atom =>
      obtain ⟨token, rest, split, begins⟩ := atom
      exact ⟨token, rest, split, List.mem_cons_of_mem _ begins⟩
  | sign isSign => exact ⟨_, _, rfl, List.mem_append_left _ (List.mem_append_left [_] isSign)⟩
  | unsigned _ term =>
      obtain ⟨token, rest, split, begins⟩ := term
      exact ⟨token, rest, split, List.mem_cons_of_mem _ (List.mem_cons_of_mem _ begins)⟩
  | @operand tier _ _ _ inner => cases tier <;> exact inner
  | joined _ _ _ left =>
      obtain ⟨token, rest, rfl, begins⟩ := left
      exact ⟨token, _, rfl, begins⟩
  | functionDef keyword => exact ⟨_, _, rfl, by rw [keyword]; decide⟩
  | variableDecl keyword => exact ⟨_, _, rfl, by rw [keyword]; decide⟩
  | outputStmt keyword => exact ⟨_, _, rfl, by rw [keyword]; decide⟩
  | @program statements finish phrases isEnd firsts =>
      cases statements with
      | nil => exact ⟨finish, [], rfl, by rw [isEnd]; decide⟩
      | cons statement others =>
          obtain ⟨token, rest, split, begins⟩ := firsts statement (.head _)
          refine ⟨token, rest ++ (others.flatMap (·.1) ++ [finish]), ?_, ?_⟩
          · simp [split]
          · exact List.mem_append_left [_] begins

/-- The rules of a tier and of everything that binds more tightly. -/
def Tier.rules : Tier → List Symbol
  | product => Node.productRules
  | sum => Node.sumRules

def Category.Describes : Category → Node → Prop
  | atom, node => node.IsExpression Node.atomRules
  | term, node => node.IsExpression Node.termRules
  | signed, node => node.IsExpression Node.signedRules
  | chain tier, node => node.IsExpression tier.rules
  | statement, node => node.IsBranch [.statement]
  | program, node => node.IsBranch [.program]

private theorem describes_chain_of_operand
    {tier : Tier} {node : Node} (described : tier.operandCategory.Describes node) :
    (Category.chain tier).Describes node := by
  cases tier with
  | product => exact Node.IsExpression.mono described (List.subset_cons_self _ _)
  | sum => exact Node.IsExpression.mono described (List.subset_cons_self _ _)

private theorem instance_joined
    {tier : Tier} {operator : Token} {left right : Node}
    (describedLeft : (Category.chain tier).Describes left)
    (operates : operator.symbol ∈ tier.operators)
    (describedRight : tier.operandCategory.Describes right) :
    Node.Instance tier.symbol [left, .leaf operator, right] := by
  cases tier with
  | product => exact .product describedLeft operates describedRight
  | sum => exact .sum describedLeft operates describedRight

private theorem describes_joined (tier : Tier) (children : List Node) :
    (Category.chain tier).Describes (.rule tier.symbol children) := by
  cases tier with
  | product => exact List.mem_cons_self
  | sum => exact List.mem_cons_self

private theorem flatMap_leaves_of_parts
    {parts : List (List Token × Node)} (leaves : ∀ part ∈ parts, part.2.leaves = part.1) :
    (parts.map (·.2)).flatMap Node.leaves = parts.flatMap (·.1) := by
  induction parts with
  | nil => rfl
  | cons part rest inductionHypothesis =>
      have restLeaves := inductionHypothesis fun other member => leaves other (.tail _ member)
      rw [List.map_cons, List.flatMap_cons, List.flatMap_cons, leaves part (.head _), restLeaves]

/-- A statement of one of the three kinds is regular if what it consists of is. -/
theorem regular_statement
    {symbol : Symbol} {children : List Node} (made : Node.Instance symbol children)
    (isStatement : symbol ∈ [.functionDef, .variableDecl, .outputStmt])
    (regular : ∀ child ∈ children, child.Regular) :
    Category.statement.Describes (.rule .statement [.rule symbol children]) ∧
      (Node.rule .statement [.rule symbol children]).Regular := by
  have inner : Node.Instance .statement [.rule symbol children] := .statement isStatement
  refine ⟨List.mem_singleton_self _, .rule inner ?_⟩
  rw [List.forall_mem_singleton]
  exact .rule made regular

namespace Phrase

variable {category : Category} {tokens : List Token} {node : Node}

/-- The leaves of the tree are the tokens of the phrase. -/
theorem leaves_eq (phrase : Phrase category tokens node) : node.leaves = tokens := by
  induction phrase with
  | simple _ => simp
  | group _ _ _ inner => simp [inner]
  | call _ _ _ arguments => simp [flatMap_leaves_of_parts arguments]
  | conditional _ _ _ _ condition consequence alternative =>
      simp [condition, consequence, alternative]
  | alone _ atom => exact atom
  | sign _ _ operand => simp [operand]
  | unsigned _ term => exact term
  | operand _ inner => exact inner
  | joined _ _ _ left right => simp [left, right]
  | functionDef _ _ _ _ _ body => simp [body]
  | variableDecl _ _ _ _ value => simp [value]
  | outputStmt _ _ value => simp [value]
  | program _ _ statements => simp [flatMap_leaves_of_parts statements]

/-- The tree of a phrase is what its kind says, and regular. -/
theorem regular (phrase : Phrase category tokens node) :
    category.Describes node ∧ node.Regular := by
  induction phrase with
  | simple isSimple => exact ⟨isSimple, .leaf _⟩
  | group opening _ closing inner =>
      refine ⟨List.mem_singleton_self _, .rule (.group opening inner.1 closing) ?_⟩
      simp [inner.2, Node.Regular.leaf]
  | @call callee arguments name nonempty _ parts =>
      refine ⟨List.mem_cons_self, .rule (.call name ?_ ?_) ?_⟩
      · simpa using nonempty
      · exact List.forall_mem_map.mpr fun part member => (parts part member).1
      · rw [List.forall_mem_cons, List.forall_mem_map]
        exact ⟨.leaf callee, fun part member => (parts part member).2⟩
  | conditional keyword _ _ _ condition consequence alternative =>
      refine ⟨by simp [Category.Describes, Node.IsExpression, Node.rule, Node.termRules], .rule
        (.conditional keyword condition.1 consequence.1 alternative.1) ?_⟩
      simp [condition.2, consequence.2, alternative.2, Node.Regular.leaf]
  | alone _ atom =>
      exact ⟨atom.1.mono (by simp [Node.atomRules, Node.termRules]), atom.2⟩
  | sign isSign _ operand =>
      refine ⟨List.mem_cons_self, .rule (.signed isSign operand.1) ?_⟩
      simp [operand.2, Node.Regular.leaf]
  | unsigned _ term => exact ⟨term.1.mono (List.subset_cons_self _ _), term.2⟩
  | operand _ inner => exact ⟨describes_chain_of_operand inner.1, inner.2⟩
  | @joined tier _ _ _ _ _ _ operates _ left right =>
      refine ⟨describes_joined tier _, .rule (instance_joined left.1 operates right.1) ?_⟩
      simp [left.2, right.2, Node.Regular.leaf]
  | functionDef keyword name names equals _ body =>
      apply regular_statement (.functionDef keyword name names equals body.1) (by simp)
      simp only [List.cons_append, List.forall_mem_cons, List.forall_mem_append,
        List.forall_mem_map]
      exact ⟨.leaf _, .leaf _, fun parameter _ => .leaf parameter, .leaf _, body.2, by simp⟩
  | variableDecl keyword name equals _ value =>
      apply regular_statement (.variableDecl keyword name equals value.1) (by simp)
      simp [value.2, Node.Regular.leaf]
  | outputStmt keyword _ value =>
      apply regular_statement (.outputStmt keyword value.1) (by simp)
      simp [value.2, Node.Regular.leaf]
  | @program statements finish _ isEnd parts =>
      refine ⟨List.mem_singleton_self _, .rule (.program ?_ isEnd) ?_⟩
      · exact List.forall_mem_map.mpr fun part member => (parts part member).1
      · rw [List.forall_mem_append, List.forall_mem_map, List.forall_mem_singleton]
        exact ⟨fun part member => (parts part member).2, .leaf finish⟩

/-- Only a program holds the token that ends the text. -/
theorem no_end
    (phrase : Phrase category tokens node) (notProgram : category ≠ .program) :
    ∀ token ∈ tokens, token.symbol ≠ .endOfText := by
  induction phrase with
  | simple isSimple =>
      rw [List.forall_mem_singleton]
      exact fun isEnd => absurd (isEnd ▸ isSimple) (by decide)
  | group opening _ closing inner =>
      simpa [opening, closing, or_imp, forall_and] using inner
  | call name _ _ arguments =>
      simp only [List.forall_mem_cons, name, List.mem_flatMap]
      refine ⟨by simp, ?_⟩
      rintro token ⟨argument, member, inArgument⟩
      exact arguments argument member nofun token inArgument
  | conditional keyword _ _ _ condition consequence alternative =>
      simpa [keyword, or_imp, forall_and] using
        ⟨condition nofun, consequence nofun, alternative nofun⟩
  | alone _ atom => exact atom nofun
  | sign isSign _ operand =>
      rw [List.forall_mem_cons]
      exact ⟨fun isEnd => absurd (isEnd ▸ isSign) (by decide), operand nofun⟩
  | unsigned _ term => exact term nofun
  | @operand tier _ _ _ inner => exact inner (by cases tier <;> nofun)
  | @joined tier operator _ _ _ _ _ operates _ left right =>
      rw [List.forall_mem_append, List.forall_mem_cons]
      refine ⟨left nofun, fun isEnd => ?_, right (by cases tier <;> nofun)⟩
      rw [isEnd] at operates
      cases tier <;> exact absurd operates (by decide)
  | functionDef keyword name names equals _ body =>
      simp only [List.forall_mem_cons, List.forall_mem_append, keyword, name, equals]
      refine ⟨by simp, by simp, fun parameter member => ?_, by simp, body nofun⟩
      simp [names parameter member]
  | variableDecl keyword name equals _ value =>
      simp only [List.forall_mem_cons, keyword, name, equals]
      exact ⟨by simp, by simp, by simp, value nofun⟩
  | outputStmt keyword _ value =>
      simp only [List.forall_mem_cons, keyword]
      exact ⟨by simp, value nofun⟩
  | program => exact absurd rfl notProgram

/-- A program consists of statements and the token that ends the text. -/
theorem exists_statements
    {before : List Token} {finish : Token} (phrase : Phrase .program (before ++ [finish]) node) :
    finish.symbol = .endOfText ∧ ∃ statements : List (List Token × Node),
      before = statements.flatMap (·.1) ∧
        node = .rule .program (statements.map (·.2) ++ [.leaf finish]) ∧
          ∀ statement ∈ statements, Phrase .statement statement.1 statement.2 := by
  generalize split : before ++ [finish] = tokens at phrase
  cases phrase with
  | @program statements _ phrases isEnd =>
      obtain ⟨rfl, ⟨⟩⟩ := List.append_inj' split rfl
      exact ⟨isEnd, statements, rfl, rfl, phrases⟩

/-- No token before the last of a program ends the text. -/
theorem no_end_before
    {before : List Token} {finish : Token} (phrase : Phrase .program (before ++ [finish]) node) :
    ∀ token ∈ before, token.symbol ≠ .endOfText := by
  obtain ⟨_, statements, rfl, _, phrases⟩ := phrase.exists_statements
  intro token member
  obtain ⟨statement, isStatement, inStatement⟩ := List.mem_flatMap.mp member
  exact (phrases statement isStatement).no_end nofun token inStatement

end Phrase

end RomanScript.Grammar
