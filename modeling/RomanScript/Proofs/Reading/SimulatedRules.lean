import RomanScript.Proofs.Reading.Simulation

/-!
# The rules of the grammar side by side

Whatever a lawful simulation relates, the two runs of every rule agree from related states: the
rules are followed from their parts, down to the single tokens. Only the two rules whose results are
remembered are left to the simulation.
-/

namespace RomanScript.Grammar

open Reading

namespace Simulation

variable {left right : Input} {sim : Simulation left right} {depth : Int}

/-- What a simulation provides for the two rules whose results are remembered. -/
structure Remembers (sim : Simulation left right) : Prop where
  group (levels levels' : Nat) :
    sim.FollowsAt [.openParen]
      (Grammar.group left (expressionWithin left levels))
      (Grammar.group right (expressionWithin right levels')) sim.nodes →
    sim.FollowsAt [.openParen]
      (remembering left .group (Grammar.group left (expressionWithin left levels)))
      (remembering right .group (Grammar.group right (expressionWithin right levels'))) sim.nodes
  conditional (levels levels' : Nat) :
    sim.FollowsAt [.keyword .choose]
      (Grammar.conditional left (expressionWithin left levels))
      (Grammar.conditional right (expressionWithin right levels')) sim.nodes →
    sim.FollowsAt [.keyword .choose]
      (remembering left .conditional (Grammar.conditional left (expressionWithin left levels)))
      (remembering right .conditional
        (Grammar.conditional right (expressionWithin right levels'))) sim.nodes

theorem follows_operands
    (lawful : sim.Lawful)
    {expression expression' : Reading Node} [Keeps left expression] [Keeps right expression']
    (expressions : sim.Follows expression expression' sim.nodes) (calls : Bool) :
    sim.Follows (Grammar.operands expression calls) (Grammar.operands expression' calls)
      (List.Forall₂ sim.nodes) := by
  unfold Grammar.operands
  refine .withCalls lawful calls ?_
  refine .bind lawful expressions fun condition condition' sameCondition => ?_
  refine .bind lawful expressions fun consequence consequence' sameConsequence => ?_
  refine .bind lawful expressions fun alternative alternative' sameAlternative => ?_
  exact .pure (.cons sameCondition (.cons sameConsequence (.cons sameAlternative .nil)))

section Expressions

variable {levels levels' : Nat}
    (expression : sim.Follows (expressionWithin left levels) (expressionWithin right levels')
      sim.nodes)

include expression

theorem follows_group
    (lawful : sim.Lawful) :
    sim.FollowsAt [.openParen]
      (Grammar.group left (expressionWithin left levels))
      (Grammar.group right (expressionWithin right levels')) sim.nodes := by
  unfold Grammar.group
  refine .visit lawful .group ?_
  refine .bind lawful (.leaf lawful (by decide)) fun opening opening' sameOpening => ?_
  refine .bind lawful (.withCalls lawful true expression) fun inner inner' sameInner => ?_
  refine .bind lawful (.expect lawful (by decide)) fun closing closing' sameClosing => ?_
  exact lawful.expressionRule .group
    (.cons sameOpening (.cons sameInner (.cons sameClosing .nil))) nofun

private theorem follows_atom
    (lawful : sim.Lawful) (remembers : sim.Remembers) :
    sim.Follows (Grammar.atom left (expressionWithin left levels))
      (Grammar.atom right (expressionWithin right levels')) sim.nodes := by
  unfold Grammar.atom
  refine .ifSees lawful (by decide) (.leaf lawful (by decide)) ?_
  refine .ifSees lawful (by decide) ?_ (.refuse lawful _)
  exact remembers.group levels levels' (follows_group expression lawful)

private theorem follows_atoms
    (lawful : sim.Lawful) (remembers : sim.Remembers) (steps steps' : Nat) :
    sim.Follows (Grammar.atoms left (expressionWithin left levels) steps)
      (Grammar.atoms right (expressionWithin right levels') steps')
      (List.Forall₂ sim.nodes) := by
  refine .steps rfl rfl (fun steps steps' inductionHypothesis => ?_) steps steps'
  unfold Grammar.atoms
  refine .ifSees lawful (by decide) (Follows.at ?_) (.pure .nil)
  refine .bind lawful (follows_atom expression lawful remembers) fun a b sameAtom => ?_
  refine .bind lawful inductionHypothesis fun rest rest' sameRest => ?_
  exact .pure (.cons sameAtom sameRest)

theorem follows_conditional
    (lawful : sim.Lawful) :
    sim.FollowsAt [.keyword .choose]
      (Grammar.conditional left (expressionWithin left levels))
      (Grammar.conditional right (expressionWithin right levels')) sim.nodes := by
  unfold Grammar.conditional
  refine .visit lawful .conditional ?_
  refine .bind lawful (.leaf lawful (by decide)) fun keyword keyword' sameKeyword => ?_
  refine .bind lawful
    (.orElseAgain lawful (follows_operands lawful expression true)
      (follows_operands lawful expression false)) fun parts parts' sameParts => ?_
  exact lawful.expressionRule .conditional (.cons sameKeyword sameParts) nofun

private theorem follows_call
    (lawful : sim.Lawful) (remembers : sim.Remembers) :
    sim.FollowsAt [.identifier] (Grammar.call left (expressionWithin left levels))
      (Grammar.call right (expressionWithin right levels')) sim.nodes := by
  unfold Grammar.call
  refine .bind lawful (.leaf lawful (by decide)) fun callee callee' sameCallee => ?_
  refine .bind lawful (.withBudget (follows_atoms expression lawful remembers))
    fun arguments arguments' sameArguments => ?_
  exact lawful.expressionRule .call (.cons sameCallee sameArguments) nofun

private theorem follows_term
    (lawful : sim.Lawful) (remembers : sim.Remembers) :
    sim.Follows (Grammar.term left (expressionWithin left levels))
      (Grammar.term right (expressionWithin right levels')) sim.nodes := by
  unfold Grammar.term
  refine .ifSees lawful (by decide)
    (remembers.conditional levels levels' (follows_conditional expression lawful)) ?_
  exact .ifSeesCall lawful (follows_call expression lawful remembers)
    (follows_atom expression lawful remembers)

private theorem follows_signedWithin
    (lawful : sim.Lawful) (remembers : sim.Remembers) (steps steps' : Nat) :
    sim.Follows (Grammar.signedWithin left (expressionWithin left levels) steps)
      (Grammar.signedWithin right (expressionWithin right levels') steps') sim.nodes := by
  refine .steps rfl rfl (fun steps steps' inductionHypothesis => ?_) steps steps'
  unfold Grammar.signedWithin
  refine .ifSees lawful (by decide) ?_ (follows_term expression lawful remembers)
  refine .bind lawful (.leaf lawful (by decide)) fun sign sign' sameSign => ?_
  refine .nested lawful ?_
  refine .bind lawful inductionHypothesis fun operand operand' sameOperand => ?_
  exact lawful.expressionRule .signed (.cons sameSign (.cons sameOperand .nil)) nofun

end Expressions

private theorem follows_chainWithin
    (lawful : sim.Lawful) (symbol : Symbol) {operators : List Symbol}
    (inside : ∀ operator ∈ operators, operator ∉ boundary)
    {operand operand' : Reading Node} [Keeps left operand] [Keeps right operand']
    (operands : sim.Follows operand operand' sim.nodes)
    (steps steps' : Nat) {first first' : Node} (sameFirst : sim.nodes first first') :
    sim.Follows (Grammar.chainWithin left symbol operators operand steps first)
      (Grammar.chainWithin right symbol operators operand' steps' first') sim.nodes := by
  induction steps generalizing steps' first first' with
  | zero => exact .leftMisuse
  | succ steps inductionHypothesis =>
      cases steps' with
      | zero => exact .rightMisuse
      | succ steps' =>
          unfold Grammar.chainWithin
          refine .ifSees lawful inside ?_ (.pure sameFirst)
          refine .bind lawful (.leaf lawful fun isEnd => inside _ isEnd (.head _))
            fun operator operator' sameOperator => ?_
          refine .bind lawful operands fun next next' sameNext => ?_
          refine .bind lawful (lawful.expressionRule symbol
            (.cons sameFirst (.cons sameOperator (.cons sameNext .nil))) nofun) ?_
          intro joined joined' sameJoined
          exact inductionHypothesis steps' sameJoined

private theorem follows_chain
    (lawful : sim.Lawful) (symbol : Symbol) (operators : List Symbol)
    (inside : ∀ operator ∈ operators, operator ∉ boundary)
    {operand operand' : Reading Node} [Keeps left operand] [Keeps right operand']
    (operands : sim.Follows operand operand' sim.nodes) :
    sim.Follows (Grammar.chain left symbol operators operand)
      (Grammar.chain right symbol operators operand') sim.nodes := by
  unfold Grammar.chain
  refine .bind lawful operands fun first first' sameFirst => ?_
  exact .withBudget fun steps steps' =>
    follows_chainWithin lawful symbol inside operands steps steps' sameFirst

/-- The two readings may stop counting levels at different places, since a run that gets there is
compared with nothing. -/
theorem follows_expressionWithin
    (lawful : sim.Lawful) (remembers : sim.Remembers) (levels levels' : Nat) :
    sim.Follows (expressionWithin left levels) (expressionWithin right levels') sim.nodes := by
  refine .steps rfl rfl (fun levels levels' inductionHypothesis => ?_) levels levels'
  have signed := Follows.withBudget (follows_signedWithin inductionHypothesis lawful remembers)
  have product := follows_chain lawful .product [.times, .divide] (by decide) signed
  exact .nested lawful (follows_chain lawful .sum [.plus, .minus] (by decide) product)

private theorem follows_wholeExpression
    (lawful : sim.Lawful) (remembers : sim.Remembers) :
    sim.Follows (wholeExpression left) (wholeExpression right) sim.nodes :=
  .withBudget (follows_expressionWithin lawful remembers)

private theorem follows_namesWithin
    (lawful : sim.Lawful) (steps steps' : Nat) :
    sim.Follows (namesWithin left steps) (namesWithin right steps') (List.Forall₂ sim.nodes) := by
  refine .steps rfl rfl (fun steps steps' inductionHypothesis => ?_) steps steps'
  unfold namesWithin
  refine .ifSees lawful (by decide) ?_ (.pure .nil)
  refine .bind lawful (.leaf lawful (by decide)) fun name name' sameName => ?_
  refine .bind lawful inductionHypothesis fun rest rest' sameRest => ?_
  exact .pure (.cons sameName sameRest)

private theorem follows_functionDef
    (lawful : sim.Lawful) (remembers : sim.Remembers) :
    sim.FollowsAt [.keyword .define] (functionDef left) (functionDef right) sim.nodes := by
  unfold functionDef
  refine .bind lawful (.leaf lawful (by decide)) fun keyword keyword' sameKeyword => ?_
  refine .bind lawful (.expect lawful (by decide)) fun name name' sameName => ?_
  refine .bind lawful (.withBudget (follows_namesWithin lawful))
    fun parameters parameters' sameParameters => ?_
  refine .bind lawful (.expect lawful (by decide)) fun equals equals' sameEquals => ?_
  refine .bind lawful (follows_wholeExpression lawful remembers) fun body body' sameBody => ?_
  have parts := List.rel_append sameParameters (.cons sameEquals (.cons sameBody .nil))
  exact .pure (lawful.rule .functionDef (.cons sameKeyword (.cons sameName parts)) nofun)

private theorem follows_variableDecl
    (lawful : sim.Lawful) (remembers : sim.Remembers) :
    sim.FollowsAt [.keyword .declare] (variableDecl left) (variableDecl right) sim.nodes := by
  unfold variableDecl
  refine .bind lawful (.leaf lawful (by decide)) fun keyword keyword' sameKeyword => ?_
  refine .bind lawful (.expect lawful (by decide)) fun name name' sameName => ?_
  refine .bind lawful (.expect lawful (by decide)) fun equals equals' sameEquals => ?_
  refine .bind lawful (follows_wholeExpression lawful remembers) fun value value' sameValue => ?_
  exact .pure (lawful.rule .variableDecl
    (.cons sameKeyword (.cons sameName (.cons sameEquals (.cons sameValue .nil)))) nofun)

private theorem follows_outputStmt
    (lawful : sim.Lawful) (remembers : sim.Remembers) :
    sim.FollowsAt [.keyword .output] (outputStmt left) (outputStmt right) sim.nodes := by
  unfold outputStmt
  refine .bind lawful (.leaf lawful (by decide)) fun keyword keyword' sameKeyword => ?_
  refine .bind lawful (follows_wholeExpression lawful remembers) fun value value' sameValue => ?_
  exact .pure (lawful.rule .outputStmt (.cons sameKeyword (.cons sameValue .nil)) nofun)

private theorem follows_statementFor
    (lawful : sim.Lawful) (remembers : sim.Remembers) (symbol : Symbol) :
    sim.FollowsAt [symbol] (statementFor left symbol) (statementFor right symbol) sim.nodes := by
  unfold statementFor
  split_ifs with define declare output
  · exact define ▸ follows_functionDef lawful remembers
  · exact declare ▸ follows_variableDecl lawful remembers
  · exact output ▸ follows_outputStmt lawful remembers
  · exact (Follows.refuse lawful _).at

/-- Where the left text does not end, the statements that begin there agree. -/
theorem follows_statement
    (lawful : sim.Lawful) (remembers : sim.Remembers)
    {s t : State} (related : sim.states depth s t)
    (notEnd : ¬ left.Ahead [.endOfText] s.position) :
    sim.Outcome depth (sim.Valued depth sim.nodes) (statement left s) (statement right t) := by
  rw [statement_apply, statement_apply]
  cases ahead : left.tokenAt? s.position with
  | none => exact .leftMisuse
  | some x =>
      cases ahead' : right.tokenAt? t.position with
      | none => exact .rightMisuse
      | some y =>
          rcases lawful.facing related ahead ahead' with ⟨sameSymbol, _⟩ | ⟨isEnd, _⟩
          · dsimp only
            rw [← sameSymbol]
            refine FollowsAt.bind lawful (follows_statementFor lawful remembers x.symbol)
              (fun inner inner' sameInner => ?_) depth s t related ⟨x, ahead, .head _⟩
            exact .pure (lawful.rule .statement (.cons sameInner .nil) nofun)
          · exact (notEnd ⟨x, ahead, isEnd ▸ .head _⟩).elim

section SameTokens

variable (lawful : sim.Lawful) (remembers : sim.Remembers)
    (same : ∀ depth s t x y, sim.states depth s t →
      left.tokenAt? s.position = some x → right.tokenAt? t.position = some y →
        sim.SameToken x y)

include lawful remembers same

theorem follows_statementsWithin
    (steps steps' : Nat) :
    sim.Follows (statementsWithin left steps) (statementsWithin right steps')
      (List.Forall₂ sim.nodes) := by
  refine .steps rfl rfl (fun steps steps' inductionHypothesis => ?_) steps steps'
  intro depth s t related
  rw [statementsWithin_succ_apply, statementsWithin_succ_apply]
  cases ahead : left.tokenAt? s.position with
  | none => exact .leftMisuse
  | some x =>
      cases ahead' : right.tokenAt? t.position with
      | none => exact .rightMisuse
      | some y =>
          have sameSymbol := (same depth s t x y related ahead ahead').1
          dsimp only
          rw [← sameSymbol]
          by_cases isEnd : x.symbol = .endOfText
          · rw [if_pos isEnd, if_pos isEnd]
            exact .value ⟨.nil, related⟩
          · rw [if_neg isEnd, if_neg isEnd]
            have notEnd : ¬ left.Ahead [.endOfText] s.position :=
              not_ahead_of_tokenAt? left ahead (by simpa using isEnd)
            refine (follows_statement lawful remembers related notEnd).bind lawful ?_
            rintro first first' s' t' ⟨sameFirst, related'⟩
            refine Follows.bind lawful inductionHypothesis (fun rest rest' sameRest => ?_)
              depth s' t' related'
            exact .pure (.cons sameFirst sameRest)

theorem follows_programWithin
    (steps steps' : Nat) {s t : State} (related : sim.states depth s t) :
    sim.Outcome depth (fun root root' _ _ => sim.nodes root root')
      (programWithin left steps s) (programWithin right steps' t) := by
  unfold programWithin
  have statements := follows_statementsWithin lawful remembers same steps steps'
  refine (statements depth s t related).bind lawful ?_
  rintro nodes nodes' s' t' ⟨sameNodes, related'⟩
  have finish : sim.Outcome depth (fun node node' _ _ => sim.nodes node node')
      (leaf left s') (leaf right t') := by
    rw [leaf_apply, leaf_apply]
    cases ahead : left.tokenAt? s'.position with
    | none => exact .leftMisuse
    | some x =>
        cases ahead' : right.tokenAt? t'.position with
        | none => exact .rightMisuse
        | some y => exact .value (same depth s' t' x y related' ahead ahead').2
  refine finish.bind lawful ?_
  intro last last' _ _ sameLast
  exact .value (lawful.rule .program (List.rel_append sameNodes (.cons sameLast .nil)) (by simp))

end SameTokens

end Simulation

end RomanScript.Grammar
