import RomanScript.Proofs.Reading.Nesting
import RomanScript.Proofs.Reading.Phrased
import RomanScript.Proofs.Reading.Repetition

/-!
# Phrases without conditionals are read

Where no conditional is involved nothing is tried twice. So a phrase that respects the limits is
read in one go, with memory and limits switched on as with both switched off: the state that is left
stands behind the phrase, on the same level, and remembers nothing from there on. Phrases that are
read so wherever they stand are put together as the grammar puts phrases together.
-/

namespace RomanScript.Grammar

open Reading

/-! ## Proof rules -/

/-- Calls are recognised at a position and a level, and nothing is remembered from there on. -/
structure Stands (place : Int) (level : Nat) (s : State) : Prop where
  position : s.position = place
  calls : s.calls = true
  nesting : s.nesting = level
  memory : Before s.memory place

/-- From every state that stands at the start, the reading has a value and leaves a state that
stands at the finish. -/
def Takes {α : Type} (reading : Reading α) (start : Int) (level : Nat) (value : α) (finish : Int) :
    Prop :=
  ∀ s, Stands start level s → ∃ after, reading s = (.ok value, after) ∧ Stands finish level after

def Input.Allows (input : Input) (level : Nat) (node : Node) : Prop :=
  input.settings.limited = true → node.Within level

def Input.remaining (input : Input) (position : Int) : Nat :=
  (input.tokens.size - position).toNat

variable {input : Input} {α β : Type} {start middle finish : Int} {level : Nat} {a : α} {b : β}

theorem Input.Allows.child
    {symbol : Symbol} {children : List Node} {child : Node} {index : Nat}
    (allows : input.Allows level (.rule symbol children))
    (isChild : children[index]? = some child) :
    input.Allows (Node.levelOfChild symbol index level) child :=
  fun limited => (allows limited).child isChild

theorem at_of_eq
    {symbol : Symbol} {token : Token} (ahead : input.tokenAt? start = some token)
    (same : token.symbol = symbol) : input.At start [symbol] token :=
  ⟨ahead, List.mem_singleton.mpr same⟩

theorem remaining_le (forward : start ≤ finish) :
    input.remaining finish ≤ input.remaining start := by
  unfold Input.remaining
  omega

private theorem remaining_lt
    {symbols : List Symbol} {token : Token} (terminated : input.Terminated)
    (standing : input.At start symbols token) (notEnd : .endOfText ∉ symbols)
    (forward : start < finish) : input.remaining finish < input.remaining start := by
  have bound := standing.lt_size terminated notEnd
  unfold Input.remaining
  omega

theorem remaining_succ_lt
    {symbols : List Symbol} {token : Token} (terminated : input.Terminated)
    (standing : input.At start symbols token) (notEnd : .endOfText ∉ symbols) :
    input.remaining (start + 1) < input.remaining start :=
  remaining_lt terminated standing notEnd (Int.lt_add_one_of_le (Int.le_refl _))

namespace Takes

theorem bind
    {first : Reading α} {next : α → Reading β} (begun : Takes first start level a middle)
    (continued : Takes (next a) middle level b finish) :
    Takes (first >>= next) start level b finish := by
  intro s stands
  obtain ⟨between, read, standsBetween⟩ := begun s stands
  obtain ⟨after, readNext, standsAfter⟩ := continued between standsBetween
  exact ⟨after, (bind_apply_ok read).trans readNext, standsAfter⟩

theorem pure : Takes (Pure.pure a) start level a start :=
  fun s stands => ⟨s, rfl, stands⟩

theorem withCalls
    {reading : Reading α} (taken : Takes reading start level a finish) :
    Takes (Reading.withCalls true reading) start level a finish := by
  intro s stands
  obtain ⟨after, read, standsAfter⟩ :=
    taken { s with calls := true } ⟨stands.position, rfl, stands.nesting, stands.memory⟩
  refine ⟨{ after with calls := s.calls }, ?_, ?_⟩
  · unfold Reading.withCalls Reading.afterwards
    rw [read]
  · exact ⟨standsAfter.position, stands.calls, standsAfter.nesting, standsAfter.memory⟩

theorem withBudget
    {repetition : Nat → Reading α}
    (taken : ∀ steps, input.remaining start < steps →
      Takes (repetition steps) start level a finish) :
    Takes (Reading.withBudget input repetition) start level a finish := by
  intro s stands
  refine taken (input.budget s) ?_ s stands
  dsimp only [Input.remaining, Input.budget]
  rw [stands.position]
  omega

theorem leaf
    (terminated : input.Terminated) {symbols : List Symbol} {token : Token}
    (standing : input.At start symbols token) (notEnd : .endOfText ∉ symbols) :
    Takes (Grammar.leaf input) start level (.leaf token) (start + 1) := by
  intro s stands
  rw [← stands.position] at standing
  refine ⟨_, leaf_of_at standing terminated notEnd, ?_⟩
  exact ⟨congrArg (· + 1) stands.position, stands.calls, stands.nesting,
    stands.memory.mono (Int.le_add_one (Int.le_refl _))⟩

theorem ifSees
    {symbols : List Symbol} {token : Token} {first other : Reading α}
    (standing : input.At start symbols token) (taken : Takes first start level a finish) :
    Takes (sees input symbols >>= fun found => if found = true then first else other) start level a
      finish := by
  intro s stands
  rw [← stands.position] at standing
  rw [ifSees_of_at standing]
  exact taken s stands

theorem ifNotSees
    (terminated : input.Terminated) {symbols : List Symbol} {first other : Reading α}
    (nonneg : 0 ≤ start) (none : ¬ input.Ahead symbols start)
    (taken : Takes other start level a finish) :
    Takes (sees input symbols >>= fun found => if found = true then first else other) start level a
      finish := by
  intro s stands
  rw [← stands.position] at nonneg none
  rw [ifSees_of_not_ahead terminated nonneg none]
  exact taken s stands

private theorem ifSeesCall
    {callee : Token} {first other : Reading α} (standing : input.At start [.identifier] callee)
    (argument : input.Ahead atomStart (start + 1)) (taken : Takes first start level a finish) :
    Takes (seesCall input >>= fun found => if found = true then first else other) start level a
      finish := by
  intro s stands
  rw [← stands.position] at standing argument
  rw [ifSeesCall_of_at stands.calls standing argument]
  exact taken s stands

theorem ifNotSeesCall
    (terminated : input.Terminated) {first other : Reading α} (nonneg : 0 ≤ start)
    (alone : input.Ahead [.identifier] start → ¬ input.Ahead atomStart (start + 1))
    (taken : Takes other start level a finish) :
    Takes (seesCall input >>= fun found => if found = true then first else other) start level a
      finish := by
  intro s stands
  rw [← stands.position] at nonneg alone
  rw [ifSeesCall_of_alone terminated nonneg fun _ => alone]
  exact taken s stands

private theorem expect
    (terminated : input.Terminated) {symbol : Symbol} {token : Token}
    (standing : input.At start [symbol] token) (notEnd : symbol ≠ .endOfText) :
    Takes (Grammar.expect input symbol) start level (.leaf token) (start + 1) :=
  ifSees standing (leaf terminated standing (by simpa using notEnd.symm))

theorem expressionRule
    {symbol : Symbol} {children : List Node} {own : Nat}
    (allows : input.Allows own (.rule symbol children)) :
    Takes (Grammar.expressionRule input symbol children) start level (.rule symbol children)
      start := by
  intro s stands
  refine ⟨s, ?_, stands⟩
  rw [expressionRule_apply, if_neg]
  rintro ⟨limited, exceeds⟩
  have low := (allows limited).height_le
  omega

theorem nested
    {reading : Reading α} (shallow : input.settings.limited = true → level + 1 ≤ nestingLimit)
    (taken : Takes reading start (level + 1) a finish) :
    Takes (Grammar.nested input reading) start level a finish := by
  intro s stands
  have deeper : Stands start (level + 1) s.deeper :=
    ⟨stands.position, stands.calls, congrArg (· + 1) stands.nesting, stands.memory⟩
  obtain ⟨after, read, standsAfter⟩ := taken s.deeper deeper
  refine ⟨after.shallower, ?_, standsAfter.position, standsAfter.calls, ?_, standsAfter.memory⟩
  · rw [nested_of_not_crosses, read]
    rintro ⟨limited, crossed⟩
    have limit := shallow limited
    rw [stands.nesting] at crossed
    omega
  · change after.nesting - 1 = level
    rw [standsAfter.nesting]
    omega

/-- A reading that has a value is not tried again. -/
theorem orElseAgain
    {first again : Reading α} (taken : Takes first start level a finish) :
    Takes (Reading.orElseAgain first again) start level a finish := by
  intro s stands
  obtain ⟨after, read, standsAfter⟩ := taken s stands
  refine ⟨after, ?_, standsAfter⟩
  unfold Reading.orElseAgain
  rw [read]
  rfl

theorem visit
    (symbol : Symbol) {body : Reading Node} {node : Node}
    (taken : Takes body start level node finish) :
    Takes (Grammar.visit symbol >>= fun _ => body) start level node finish :=
  fun _ stands => taken _ ⟨stands.position, stands.calls, stands.nesting, stands.memory⟩

/-- Nothing is recalled, and what is remembered begins before the finish. -/
theorem remembering
    {symbol : Symbol} {body : Reading Node} {node : Node} (forward : start < finish)
    (taken : Takes body start level node finish) :
    Takes (Grammar.remembering input symbol body) start level node finish := by
  intro s stands
  have fresh : (if input.settings.remembers then s.recall? symbol s.position else none) = none := by
    split
    · rw [stands.position]
      exact recallFrom_eq_none_of_before stands.memory symbol
    · rfl
  obtain ⟨after, read, standsAfter⟩ := taken s stands
  refine ⟨after.remember s symbol (.ok (node, after.position)), ?_, standsAfter.position,
    standsAfter.calls, standsAfter.nesting, ?_⟩
  · unfold Grammar.remembering
    rw [fresh, read]
    rfl
  · exact List.forall_mem_cons.mpr ⟨stands.position ▸ forward, standsAfter.memory⟩

end Takes

/-! ## Phrases -/

def Tier.continues : Tier → List Symbol
  | product => atomStart
  | sum => product.operators ++ atomStart

/-- The symbols with which a whole expression would go on. -/
def continues : List Symbol := Tier.sum.operators ++ Tier.sum.continues

/-- A phrase of a kind is read from its start to its finish, given enough levels and steps and
provided that it does not go on there. A chain is read with whatever its last part is followed
by. -/
def Category.Taken (input : Input) : Category → Int → Node → Int → Prop
  | .atom, start, node, finish => ∀ levels level : Nat,
      input.remaining start ≤ levels → input.Allows level node →
        Takes (Grammar.atom input (expressionWithin input levels)) start level node finish
  | .term, start, node, finish => ¬ input.Ahead atomStart finish → ∀ levels level : Nat,
      input.remaining start ≤ levels → input.Allows level node →
        Takes (Grammar.term input (expressionWithin input levels)) start level node finish
  | .signed, start, node, finish => ¬ input.Ahead atomStart finish → ∀ levels steps level : Nat,
      input.remaining start ≤ levels → input.remaining start < steps → input.Allows level node →
        Takes (signedWithin input (expressionWithin input levels) steps) start level node finish
  | .chain tier, start, node, finish => ¬ input.Ahead tier.continues finish →
      ∀ (levels level : Nat) (result : Node) (last : Int),
        input.remaining start ≤ levels → input.Allows level node →
        (∀ steps, input.remaining finish < steps →
          Takes (chainWithin input tier.symbol tier.operators
            (operandOf input (expressionWithin input levels) tier) steps node) finish level result
              last) →
          Takes (Grammar.chain input tier.symbol tier.operators
            (operandOf input (expressionWithin input levels) tier)) start level result last
  | .statement, start, node, finish => ¬ input.Ahead continues finish →
      (∀ expression, node.expression? = some expression → input.Allows 1 expression) →
        Takes (Grammar.statement input) start 0 node finish
  | .program, _, _, _ => True

/-- A whole expression is read from its start to its finish, given enough levels and provided that
it does not go on there. -/
def Whole (input : Input) (start : Int) (node : Node) (finish : Int) : Prop :=
  ¬ input.Ahead continues finish → ∀ levels level : Nat,
    input.remaining start < levels → input.Allows (level + 1) node →
      Takes (expressionWithin input levels) start level node finish

/-- A phrase of a kind is read as one wherever it stands. -/
structure Read (category : Category) (tokens : List Token) (node : Node) : Prop where
  phrase : Phrase category tokens node
  taken {input : Input} {start finish : Int} : input.Terminated → 0 ≤ start →
    input.Spells start tokens finish → category.Taken input start node finish

/-- An expression is read as a whole wherever it stands. -/
structure ReadWhole (tokens : List Token) (node : Node) : Prop where
  phrase : Phrase .expression tokens node
  whole {input : Input} {start finish : Int} : input.Terminated → 0 ≤ start →
    input.Spells start tokens finish → Whole input start node finish

private theorem Phrase.ahead
    {category : Category} {tokens : List Token} {node : Node}
    (phrase : Phrase category tokens node) (spelled : input.Spells start tokens finish) :
    input.Ahead category.begins start := by
  obtain ⟨token, rest, rfl, begins⟩ := phrase.exists_head
  exact ⟨token, spelled.1, begins⟩

theorem Phrase.forward
    {category : Category} {tokens : List Token} {node : Node}
    (phrase : Phrase category tokens node) (spelled : input.Spells start tokens finish) :
    start < finish := by
  obtain ⟨token, rest, rfl, _⟩ := phrase.exists_head
  have length := spelled.finish_eq
  rw [List.length_cons] at length
  omega

private theorem takes_statement
    {token : Token} {inner : Node} (ahead : input.tokenAt? start = some token)
    (taken : Takes (statementFor input token.symbol) start level inner finish) :
    Takes (statement input) start level (.rule .statement [inner]) finish := by
  intro s stands
  obtain ⟨after, read, standsAfter⟩ := taken s stands
  refine ⟨after, ?_, standsAfter⟩
  rw [statement_apply, stands.position, ahead]
  exact (bind_apply_ok read).trans rfl

section Taken

variable (terminated : input.Terminated) (nonneg : 0 ≤ start)

include terminated nonneg

/-- A chain that does not go on is read as far as it goes. -/
theorem takes_chain
    {tier : Tier} {node : Node} {levels : Nat} (forward : start ≤ finish)
    (taken : (Category.chain tier).Taken input start node finish)
    (stops : ¬ input.Ahead (tier.operators ++ tier.continues) finish)
    (enough : input.remaining start ≤ levels) (allows : input.Allows level node) :
    Takes (chain input tier.symbol tier.operators
      (operandOf input (expressionWithin input levels) tier)) start level node finish := by
  have notOperand : ¬ input.Ahead tier.continues finish := fun ahead =>
    stops (ahead.mono fun _ member => List.mem_append_right _ member)
  have notOperator : ¬ input.Ahead tier.operators finish := fun ahead =>
    stops (ahead.mono fun _ member => List.mem_append_left _ member)
  refine taken notOperand levels level node finish enough allows fun steps more => ?_
  cases steps with
  | zero => exact absurd more (Nat.not_lt_zero _)
  | succ steps =>
      unfold chainWithin
      exact .ifNotSees terminated (by omega) notOperator .pure

/-- An operand of a tier is read where nothing continues it. -/
theorem takes_operandOf
    {tier : Tier} {node : Node} {levels : Nat} (forward : start ≤ finish)
    (taken : tier.operandCategory.Taken input start node finish)
    (stops : ¬ input.Ahead tier.continues finish)
    (enough : input.remaining start ≤ levels) (allows : input.Allows level node) :
    Takes (operandOf input (expressionWithin input levels) tier) start level node finish := by
  cases tier with
  | product =>
      exact .withBudget fun steps more => taken stops levels steps level enough more allows
  | sum => exact takes_chain terminated nonneg forward taken stops enough allows

private theorem whole_of_taken
    {node : Node} (forward : start ≤ finish)
    (taken : Category.expression.Taken input start node finish) :
    Whole input start node finish := by
  intro stops levels level enough allows
  cases levels with
  | zero => exact absurd enough (Nat.not_lt_zero _)
  | succ levels =>
      have inner := takes_chain terminated nonneg forward taken stops (Nat.lt_succ_iff.mp enough)
        allows
      exact .nested (fun limited => (allows limited).level_le) inner

omit terminated nonneg in
private theorem takes_wholeExpression
    {node : Node} (whole : Whole input start node finish)
    (stops : ¬ input.Ahead continues finish) (allows : input.Allows (level + 1) node) :
    Takes (wholeExpression input) start level node finish :=
  .withBudget fun levels enough => whole stops levels level enough allows

private theorem takes_atoms
    {arguments : List (List Token × Node)} {levels steps : Nat}
    (read : ∀ argument ∈ arguments, Read .atom argument.1 argument.2)
    (spelled : input.Spells start (arguments.flatMap (·.1)) finish)
    (stops : ¬ input.Ahead atomStart finish)
    (enough : input.remaining start ≤ levels) (more : input.remaining start < steps)
    (allows : ∀ argument ∈ arguments, input.Allows level argument.2) :
    Takes (atoms input (expressionWithin input levels) steps) start level (arguments.map (·.2))
      finish := by
  induction arguments generalizing start steps with
  | nil =>
      cases spelled
      cases steps with
      | zero => exact absurd more (Nat.not_lt_zero _)
      | succ steps =>
          unfold atoms
          exact .ifNotSees terminated nonneg stops .pure
  | cons argument rest inductionHypothesis =>
      rw [List.forall_mem_cons] at read allows
      obtain ⟨middle, spelledFirst, spelledRest⟩ := spells_append.mp spelled
      obtain ⟨token, standing⟩ := read.1.phrase.ahead spelledFirst
      have forward := read.1.phrase.forward spelledFirst
      have fewer := remaining_lt terminated standing (by decide) forward
      cases steps with
      | zero => exact absurd more (Nat.not_lt_zero _)
      | succ steps =>
          unfold atoms
          have first := read.1.taken terminated nonneg spelledFirst levels level enough allows.1
          have others :
              Takes (atoms input (expressionWithin input levels) steps) middle level _ _ :=
            inductionHypothesis (by omega) read.2 spelledRest (by omega) (by omega) allows.2
          exact .ifSees standing (.bind first (.bind others .pure))

private theorem takes_namesWithin
    {names : List Token} {steps : Nat} (areNames : ∀ name ∈ names, name.symbol = .identifier)
    (spelled : input.Spells start names finish) (stops : ¬ input.Ahead [.identifier] finish)
    (more : input.remaining start < steps) :
    Takes (namesWithin input steps) start level (names.map .leaf) finish := by
  induction names generalizing start steps with
  | nil =>
      cases spelled
      cases steps with
      | zero => exact absurd more (Nat.not_lt_zero _)
      | succ steps =>
          unfold namesWithin
          exact .ifNotSees terminated nonneg stops .pure
  | cons name rest inductionHypothesis =>
      rw [List.forall_mem_cons] at areNames
      have standing : input.At start [.identifier] name :=
        ⟨spelled.1, List.mem_singleton.mpr areNames.1⟩
      have fewer := remaining_succ_lt terminated standing (by decide)
      cases steps with
      | zero => exact absurd more (Nat.not_lt_zero _)
      | succ steps =>
          unfold namesWithin
          refine .ifSees standing (.bind (.leaf terminated standing (by decide)) (.bind ?_ .pure))
          exact inductionHypothesis (by omega) areNames.2 spelled.2 (by omega)

private theorem takes_group
    {opening closing : Token} {inner : Node} (standing : input.At start [.openParen] opening)
    (standingClosing : input.At middle [.closeParen] closing) (forward : start + 1 ≤ middle)
    (whole : Whole input (start + 1) inner middle) :
    Category.atom.Taken input start (.rule .group [.leaf opening, inner, .leaf closing])
      (middle + 1) := by
  intro levels level enough allows
  have fewer := remaining_succ_lt terminated standing (by decide)
  have allowsInner : input.Allows (level + 1) inner := allows.child (rfl : _[1]? = some inner)
  have read := whole (standingClosing.not_ahead (by decide)) levels level
    (Nat.lt_of_lt_of_le fewer enough) allowsInner
  unfold atom
  refine .ifNotSees terminated nonneg (standing.not_ahead (by decide)) (.ifSees standing ?_)
  refine .remembering (by omega) (.visit .group ?_)
  refine .bind (.leaf terminated standing (by decide)) ?_
  refine .bind (.withCalls read) (.bind (.expect terminated standingClosing (by decide)) ?_)
  exact .expressionRule allows

private theorem takes_call
    {callee : Token} {arguments : List (List Token × Node)}
    (standing : input.At start [.identifier] callee) (nonempty : arguments ≠ [])
    (read : ∀ argument ∈ arguments, Read .atom argument.1 argument.2)
    (spelled : input.Spells (start + 1) (arguments.flatMap (·.1)) finish) :
    Category.term.Taken input start (.rule .call (.leaf callee :: arguments.map (·.2))) finish := by
  intro stops levels level enough allows
  have argument : input.Ahead atomStart (start + 1) := by
    cases arguments with
    | nil => exact absurd rfl nonempty
    | cons first rest =>
        obtain ⟨_, spelledFirst, _⟩ := spells_append.mp spelled
        exact (read first (.head _)).phrase.ahead spelledFirst
  have allowsArguments : ∀ argument ∈ arguments, input.Allows level argument.2 := by
    intro argument member
    obtain ⟨index, isArgument⟩ := List.mem_iff_getElem?.mp member
    have isChild : (Node.leaf callee :: arguments.map (·.2))[index + 1]? = some argument.2 := by
      simp [isArgument]
    exact allows.child isChild
  have fewer := remaining_succ_lt terminated standing (by decide)
  have taken : Takes (withBudget input (atoms input (expressionWithin input levels))) (start + 1)
      level (arguments.map (·.2)) finish :=
    .withBudget fun steps more => takes_atoms terminated (by omega) read spelled stops (by omega)
      more allowsArguments
  unfold term
  refine .ifNotSees terminated nonneg (standing.not_ahead (by decide)) ?_
  refine .ifSeesCall standing argument (.bind (.leaf terminated standing (by decide)) ?_)
  exact .bind taken (.expressionRule allows)

/-- An atom is a term by itself if nothing can be its argument. -/
theorem takes_alone
    {tokens : List Token} {node : Node} (phrase : Phrase .atom tokens node)
    (spelled : input.Spells start tokens finish)
    (taken : Category.atom.Taken input start node finish) :
    Category.term.Taken input start node finish := by
  intro stops levels level enough allows
  obtain ⟨token, standing⟩ := phrase.ahead spelled
  -- A name would be read as a call if an atom came next, but nothing comes there that is one.
  have alone : input.Ahead [.identifier] start → ¬ input.Ahead atomStart (start + 1) := by
    intro ahead
    cases phrase with
    | simple _ =>
        obtain ⟨_, rfl⟩ := spelled
        exact stops
    | group opening _ _ =>
        have isOpening : input.At start [.openParen] _ :=
          ⟨spelled.1, List.mem_singleton.mpr opening⟩
        exact absurd ahead (isOpening.not_ahead (by decide))
  unfold term
  refine .ifNotSees terminated nonneg (standing.not_ahead (by decide)) ?_
  exact .ifNotSeesCall terminated nonneg alone (taken levels level enough allows)

omit nonneg in
private theorem takes_sign
    {sign : Token} {operand : Node} (standing : input.At start [.plus, .minus] sign)
    (taken : Category.signed.Taken input (start + 1) operand finish) :
    Category.signed.Taken input start (.rule .signed [.leaf sign, operand]) finish := by
  intro stops levels steps level enough more allows
  have fewer := remaining_succ_lt terminated standing (by decide)
  have allowsOperand : input.Allows (level + 1) operand :=
    allows.child (rfl : _[1]? = some operand)
  cases steps with
  | zero => exact absurd more (Nat.not_lt_zero _)
  | succ steps =>
      have read := taken stops levels steps (level + 1) (by omega) (by omega) allowsOperand
      unfold signedWithin
      refine .ifSees standing (.bind (.leaf terminated standing (by decide)) ?_)
      refine .nested (fun limited => (allowsOperand limited).level_le) ?_
      exact .bind read (.expressionRule allows)

private theorem takes_unsigned
    {node : Node} (begins : input.Ahead Category.term.begins start)
    (taken : Category.term.Taken input start node finish) :
    Category.signed.Taken input start node finish := by
  intro stops levels steps level enough more allows
  obtain ⟨token, standing⟩ := begins
  cases steps with
  | zero => exact absurd more (Nat.not_lt_zero _)
  | succ steps =>
      unfold signedWithin
      exact .ifNotSees terminated nonneg (standing.not_ahead (by decide))
        (taken stops levels level enough allows)

private theorem takes_operand
    {tier : Tier} {node : Node} (forward : start ≤ finish)
    (taken : tier.operandCategory.Taken input start node finish) :
    (Category.chain tier).Taken input start node finish := by
  intro stops levels level result last enough allows rest
  have read := takes_operandOf terminated nonneg forward taken stops enough allows
  unfold chain
  exact .bind read (.withBudget rest)

/-- The left part of a joined phrase is read as a chain that goes on with the operator. -/
theorem takes_joined
    {tier : Tier} {operator : Token} {left right : Node} (begins : start ≤ middle)
    (takenLeft : (Category.chain tier).Taken input start left middle)
    (standing : input.At middle tier.operators operator) (forward : middle + 1 ≤ finish)
    (takenRight : tier.operandCategory.Taken input (middle + 1) right finish) :
    (Category.chain tier).Taken input start (.rule tier.symbol [left, .leaf operator, right])
      finish := by
  intro stops levels level result last enough allows rest
  have allowsLeft : input.Allows level left := by
    rw [← levelOfChild_tier tier 0 level]
    exact allows.child rfl
  have allowsRight : input.Allows level right := by
    rw [← levelOfChild_tier tier 2 level]
    exact allows.child rfl
  have notOperand : ¬ input.Ahead tier.continues middle :=
    standing.not_ahead (by cases tier <;> decide)
  have notEnd : .endOfText ∉ tier.operators := by cases tier <;> decide
  have fewer := remaining_succ_lt terminated standing notEnd
  have least : input.remaining middle ≤ input.remaining start := remaining_le begins
  have later : input.remaining finish ≤ input.remaining (middle + 1) := remaining_le forward
  have enoughRight : input.remaining (middle + 1) ≤ levels := by omega
  have read := takes_operandOf terminated (by omega) forward takenRight stops enoughRight
    allowsRight
  have join : Takes (expressionRule input tier.symbol [left, .leaf operator, right]) finish level _
      finish := .expressionRule allows
  -- The phrase grows to the left but is read by a loop: after the left part, the loop has the
  -- operator, the right part and then the rest before it.
  refine takenLeft notOperand levels level result last enough allowsLeft fun steps more => ?_
  cases steps with
  | zero => exact absurd more (Nat.not_lt_zero _)
  | succ steps =>
      unfold chainWithin
      refine .ifSees standing (.bind (.leaf terminated standing notEnd) (.bind read ?_))
      exact .bind join (rest steps (by omega))

private theorem takes_functionDef
    {keyword name equals : Token} {parameters : List Token} {body : Node} {behind : Int}
    (standing : input.At start [.keyword .define] keyword)
    (standingName : input.At (start + 1) [.identifier] name)
    (areNames : ∀ parameter ∈ parameters, parameter.symbol = .identifier)
    (spelled : input.Spells (start + 1 + 1) parameters middle)
    (standingEquals : input.At middle [.equals] equals)
    (whole : Whole input (middle + 1) body behind) :
    Category.statement.Taken input start (.rule .statement [.rule .functionDef
      (.leaf keyword :: .leaf name :: parameters.map .leaf ++ [.leaf equals, body])]) behind := by
  intro stops allows
  have last : (Node.leaf keyword :: .leaf name :: parameters.map .leaf ++
      [.leaf equals, body]).getLast? = some body := by
    rw [List.getLast?_append]
    rfl
  have names : Takes (withBudget input (namesWithin input)) (start + 1 + 1) 0
      (parameters.map .leaf) middle :=
    .withBudget fun steps more => takes_namesWithin terminated (by omega) areNames spelled
      (standingEquals.not_ahead (by decide)) more
  have length := spelled.finish_eq
  have read := takes_wholeExpression whole stops (allows body last)
  refine takes_statement standing.1 ?_
  rw [List.mem_singleton.mp standing.2]
  refine .bind (.leaf terminated standing (by decide)) ?_
  refine .bind (.expect terminated standingName (by decide)) (.bind names ?_)
  exact .bind (.expect terminated standingEquals (by decide)) (.bind read .pure)

omit nonneg in
private theorem takes_variableDecl
    {keyword name equals : Token} {value : Node}
    (standing : input.At start [.keyword .declare] keyword)
    (standingName : input.At (start + 1) [.identifier] name)
    (standingEquals : input.At (start + 1 + 1) [.equals] equals)
    (whole : Whole input (start + 1 + 1 + 1) value finish) :
    Category.statement.Taken input start (.rule .statement
      [.rule .variableDecl [.leaf keyword, .leaf name, .leaf equals, value]]) finish := by
  intro stops allows
  have read := takes_wholeExpression whole stops (allows value rfl)
  refine takes_statement standing.1 ?_
  rw [List.mem_singleton.mp standing.2]
  refine .bind (.leaf terminated standing (by decide)) ?_
  refine .bind (.expect terminated standingName (by decide)) ?_
  exact .bind (.expect terminated standingEquals (by decide)) (.bind read .pure)

omit nonneg in
private theorem takes_outputStmt
    {keyword : Token} {value : Node} (standing : input.At start [.keyword .output] keyword)
    (whole : Whole input (start + 1) value finish) :
    Category.statement.Taken input start
      (.rule .statement [.rule .outputStmt [.leaf keyword, value]]) finish := by
  intro stops allows
  have read := takes_wholeExpression whole stops (allows value rfl)
  refine takes_statement standing.1 ?_
  rw [List.mem_singleton.mp standing.2]
  exact .bind (.leaf terminated standing (by decide)) (.bind read .pure)

end Taken

namespace Read

variable {category : Category} {tokens : List Token} {node : Node}

theorem whole (read : Read .expression tokens node) : ReadWhole tokens node where
  phrase := read.phrase
  whole terminated nonneg spelled :=
    whole_of_taken terminated nonneg (Int.le_of_lt (read.phrase.forward spelled))
      (read.taken terminated nonneg spelled)

theorem simple
    {token : Token} (isSimple : token.symbol ∈ [.numeral, .identifier, .keyword .input]) :
    Read .atom [token] (.leaf token) where
  phrase := .simple isSimple
  taken terminated nonneg spelled := by
    obtain ⟨ahead, rfl⟩ := spelled
    have standing : Input.At _ _ _ _ := ⟨ahead, isSimple⟩
    intro levels level enough allows
    unfold atom
    exact .ifSees standing (.leaf terminated standing (by decide))

theorem group
    {opening closing : Token} (isOpening : opening.symbol = .openParen)
    (read : ReadWhole tokens node) (isClosing : closing.symbol = .closeParen) :
    Read .atom (opening :: tokens ++ [closing])
      (.rule .group [.leaf opening, node, .leaf closing]) where
  phrase := .group isOpening read.phrase isClosing
  taken terminated nonneg spelled := by
    obtain ⟨behind, ⟨ahead, spelledInner⟩, aheadClosing, rfl⟩ := spells_append.mp spelled
    exact takes_group terminated nonneg (at_of_eq ahead isOpening)
      (at_of_eq aheadClosing isClosing) (Int.le_of_lt (read.phrase.forward spelledInner))
      (read.whole terminated (by omega) spelledInner)

theorem call
    {callee : Token} {arguments : List (List Token × Node)} (isName : callee.symbol = .identifier)
    (nonempty : arguments ≠ [])
    (read : ∀ argument ∈ arguments, Read .atom argument.1 argument.2) :
    Read .term (callee :: arguments.flatMap (·.1))
      (.rule .call (.leaf callee :: arguments.map (·.2))) where
  phrase := .call isName nonempty fun argument member => (read argument member).phrase
  taken terminated nonneg spelled :=
    takes_call terminated nonneg (at_of_eq spelled.1 isName) nonempty read spelled.2

theorem alone (read : Read .atom tokens node) : Read .term tokens node where
  phrase := .alone read.phrase
  taken terminated nonneg spelled :=
    takes_alone terminated nonneg read.phrase spelled (read.taken terminated nonneg spelled)

theorem sign
    {sign : Token} (isSign : sign.symbol ∈ [.plus, .minus]) (read : Read .signed tokens node) :
    Read .signed (sign :: tokens) (.rule .signed [.leaf sign, node]) where
  phrase := .sign isSign read.phrase
  taken terminated nonneg spelled :=
    takes_sign terminated ⟨spelled.1, isSign⟩ (read.taken terminated (by omega) spelled.2)

theorem unsigned (read : Read .term tokens node) : Read .signed tokens node where
  phrase := .unsigned read.phrase
  taken terminated nonneg spelled :=
    takes_unsigned terminated nonneg (read.phrase.ahead spelled)
      (read.taken terminated nonneg spelled)

theorem operand {tier : Tier} (read : Read tier.operandCategory tokens node) :
    Read (.chain tier) tokens node where
  phrase := .operand read.phrase
  taken terminated nonneg spelled :=
    takes_operand terminated nonneg (Int.le_of_lt (read.phrase.forward spelled))
      (read.taken terminated nonneg spelled)

theorem joined
    {tier : Tier} {operator : Token} {before behind : List Token} {left right : Node}
    (readLeft : Read (.chain tier) before left) (operates : operator.symbol ∈ tier.operators)
    (readRight : Read tier.operandCategory behind right) :
    Read (.chain tier) (before ++ operator :: behind)
      (.rule tier.symbol [left, .leaf operator, right]) where
  phrase := .joined readLeft.phrase operates readRight.phrase
  taken terminated nonneg spelled := by
    obtain ⟨middle, spelledLeft, ahead, spelledRight⟩ := spells_append.mp spelled
    have forward := readLeft.phrase.forward spelledLeft
    exact takes_joined terminated nonneg (Int.le_of_lt forward)
      (readLeft.taken terminated nonneg spelledLeft) ⟨ahead, operates⟩
      (Int.le_of_lt (readRight.phrase.forward spelledRight))
      (readRight.taken terminated (by omega) spelledRight)

theorem operandOf_signed (read : Read .signed tokens node) (tier : Tier) :
    Read tier.operandCategory tokens node := by
  cases tier with
  | product => exact read
  | sum =>
      have product : Read Tier.product.operandCategory tokens node := read
      exact product.operand

theorem expression_of_chain {tier : Tier} (read : Read (.chain tier) tokens node) :
    Read .expression tokens node := by
  cases tier with
  | product =>
      have operand : Read Tier.sum.operandCategory tokens node := read
      exact operand.operand
  | sum => exact read

theorem expression_of_signed (read : Read .signed tokens node) : Read .expression tokens node :=
  (read.operandOf_signed .sum).operand

theorem functionDef
    {keyword name equals : Token} {parameters : List Token}
    (isKeyword : keyword.symbol = .keyword .define) (isName : name.symbol = .identifier)
    (areNames : ∀ parameter ∈ parameters, parameter.symbol = .identifier)
    (isEquals : equals.symbol = .equals) (read : ReadWhole tokens node) :
    Read .statement (keyword :: name :: (parameters ++ equals :: tokens))
      (.rule .statement [.rule .functionDef
        (.leaf keyword :: .leaf name :: parameters.map .leaf ++ [.leaf equals, node])]) where
  phrase := .functionDef isKeyword isName areNames isEquals read.phrase
  taken terminated nonneg spelled := by
    obtain ⟨ahead, aheadName, behind⟩ := spelled
    obtain ⟨middle, spelledNames, aheadEquals, spelledBody⟩ := spells_append.mp behind
    have length := spelledNames.finish_eq
    exact takes_functionDef terminated nonneg (at_of_eq ahead isKeyword)
      (at_of_eq aheadName isName) areNames spelledNames (at_of_eq aheadEquals isEquals)
      (read.whole terminated (by omega) spelledBody)

theorem variableDecl
    {keyword name equals : Token} (isKeyword : keyword.symbol = .keyword .declare)
    (isName : name.symbol = .identifier) (isEquals : equals.symbol = .equals)
    (read : ReadWhole tokens node) :
    Read .statement (keyword :: name :: equals :: tokens)
      (.rule .statement [.rule .variableDecl [.leaf keyword, .leaf name, .leaf equals, node]]) where
  phrase := .variableDecl isKeyword isName isEquals read.phrase
  taken terminated nonneg spelled := by
    obtain ⟨ahead, aheadName, aheadEquals, spelledValue⟩ := spelled
    exact takes_variableDecl terminated (at_of_eq ahead isKeyword) (at_of_eq aheadName isName)
      (at_of_eq aheadEquals isEquals) (read.whole terminated (by omega) spelledValue)

theorem outputStmt
    {keyword : Token} (isKeyword : keyword.symbol = .keyword .output)
    (read : ReadWhole tokens node) :
    Read .statement (keyword :: tokens)
      (.rule .statement [.rule .outputStmt [.leaf keyword, node]]) where
  phrase := .outputStmt isKeyword read.phrase
  taken terminated nonneg spelled :=
    takes_outputStmt terminated (at_of_eq spelled.1 isKeyword)
      (read.whole terminated (by omega) spelled.2)

end Read

/-- Every phrase without a conditional is read. -/
theorem Phrase.read
    {category : Category} {tokens : List Token} {node : Node}
    (phrase : Phrase category tokens node)
    (plain : ∀ token ∈ tokens, token.symbol ≠ .keyword .choose) : Read category tokens node := by
  induction phrase with
  | simple isSimple => exact .simple isSimple
  | group opening _ closing inductionHypothesis =>
      refine .group opening (inductionHypothesis fun token member => ?_).whole closing
      exact plain token (by simp [member])
  | call isName nonempty _ inductionHypothesis =>
      refine .call isName nonempty fun argument member => ?_
      exact inductionHypothesis argument member fun token inArgument =>
        plain token (.tail _ (List.mem_flatMap_of_mem member inArgument))
  | conditional keyword => exact absurd keyword (plain _ (.head _))
  | alone _ inductionHypothesis => exact (inductionHypothesis plain).alone
  | sign isSign _ inductionHypothesis =>
      exact (inductionHypothesis fun token member => plain token (.tail _ member)).sign isSign
  | unsigned _ inductionHypothesis => exact (inductionHypothesis plain).unsigned
  | operand _ inductionHypothesis => exact (inductionHypothesis plain).operand
  | joined _ operates _ readLeft readRight =>
      have left := readLeft fun token member => plain token (by simp [member])
      have right := readRight fun token member => plain token (by simp [member])
      exact left.joined operates right
  | functionDef keyword name names equals _ inductionHypothesis =>
      have body := inductionHypothesis fun token member => plain token (by simp [member])
      exact .functionDef keyword name names equals body.whole
  | variableDecl keyword name equals _ inductionHypothesis =>
      have value := inductionHypothesis fun token member => plain token (by simp [member])
      exact .variableDecl keyword name equals value.whole
  | outputStmt keyword _ inductionHypothesis =>
      have value := inductionHypothesis fun token member => plain token (by simp [member])
      exact .outputStmt keyword value.whole
  | program phrases isEnd => exact ⟨.program phrases isEnd, fun _ _ _ => trivial⟩

/-! ## Programs -/

section Programs

variable {statements : List (List Token × Node)} {finishing : Token}
    (read : ∀ statement ∈ statements, Read .statement statement.1 statement.2)
    (standing : input.At finish [.endOfText] finishing)

include read standing

/-- Statements up to the end of the text begin where an expression cannot go on. -/
theorem not_ahead_continues
    (spelled : input.Spells start (statements.flatMap (·.1)) finish) :
    ¬ input.Ahead continues start := by
  cases statements with
  | nil =>
      cases spelled
      exact standing.not_ahead (by decide)
  | cons statement rest =>
      obtain ⟨_, spelledFirst, _⟩ := spells_append.mp spelled
      obtain ⟨token, begins⟩ := (read statement (.head _)).phrase.ahead spelledFirst
      exact begins.not_ahead (by decide)

private theorem takes_statementsWithin
    (terminated : input.Terminated) (nonneg : 0 ≤ start) (steps : Nat)
    (spelled : input.Spells start (statements.flatMap (·.1)) finish)
    (more : input.remaining start < steps)
    (allows : ∀ statement ∈ statements, ∀ expression,
      statement.2.expression? = some expression → input.Allows 1 expression) :
    Takes (statementsWithin input steps) start 0 (statements.map (·.2)) finish := by
  induction statements generalizing start steps with
  | nil =>
      cases spelled
      cases steps with
      | zero => exact absurd more (Nat.not_lt_zero _)
      | succ steps =>
          unfold statementsWithin
          exact .ifSees standing .pure
  | cons statement rest inductionHypothesis =>
      rw [List.forall_mem_cons] at read allows
      obtain ⟨middle, spelledFirst, spelledRest⟩ := spells_append.mp spelled
      obtain ⟨token, begins⟩ := read.1.phrase.ahead spelledFirst
      have forward := read.1.phrase.forward spelledFirst
      have fewer := remaining_lt terminated begins (by decide) forward
      have stops := not_ahead_continues read.2 standing spelledRest
      cases steps with
      | zero => exact absurd more (Nat.not_lt_zero _)
      | succ steps =>
          have first := read.1.taken terminated nonneg spelledFirst stops allows.1
          have others : Takes (statementsWithin input steps) middle 0 _ finish :=
            inductionHypothesis read.2 (by omega) steps spelledRest (by omega) allows.2
          unfold statementsWithin
          exact .ifNotSees terminated nonneg (begins.not_ahead (by decide))
            (.bind first (.bind others .pure))

/-- A program is read to its tree if its statements are read and respect the limits. -/
theorem exists_program_of_statements
    (terminated : input.Terminated)
    (spelled : input.Spells 0 (statements.flatMap (·.1)) finish)
    (allows : ∀ statement ∈ statements, ∀ expression,
      statement.2.expression? = some expression → input.Allows 1 expression) :
    ∃ after, program input State.start =
      (.ok (.rule .program (statements.map (·.2) ++ [.leaf finishing])), after) := by
  have taken : Takes (withBudget input (statementsWithin input)) 0 0 _ finish :=
    .withBudget fun steps more =>
      takes_statementsWithin read standing terminated (Int.le_refl 0) steps spelled more allows
  obtain ⟨between, readStatements, stands⟩ := taken State.start
    ⟨rfl, rfl, rfl, fun _ member => absurd member List.not_mem_nil⟩
  refine ⟨input.advanced between, (bind_apply_ok readStatements).trans ?_⟩
  rw [bind_apply, leaf_apply, stands.position, standing.1]
  rfl

end Programs

/-- A program without conditionals is read to its tree if its expressions respect the limits. -/
theorem exists_program_of_phrase
    (terminated : input.Terminated) {before : List Token} {finishing : Token} {root : Node}
    (phrase : Phrase .program (before ++ [finishing]) root)
    (spelled : input.Spells 0 before finish) (standing : input.At finish [.endOfText] finishing)
    (plain : ∀ token ∈ before, token.symbol ≠ .keyword .choose)
    (allows : ∀ statement ∈ root.statements, ∀ expression,
      statement.expression? = some expression → input.Allows 1 expression) :
    ∃ after, program input State.start = (.ok root, after) := by
  obtain ⟨_, statements, rfl, rfl, phrases⟩ := phrase.exists_statements
  have isStatement : ∀ statement ∈ statements, statement.2 ∈
      (Node.rule .program (statements.map (·.2) ++ [.leaf finishing])).statements := by
    intro statement member
    have symbol := (phrases statement member).regular.1.symbol_mem
    refine List.mem_filter.mpr ⟨List.mem_append_left _ (List.mem_map_of_mem member), ?_⟩
    simpa using symbol
  refine exists_program_of_statements ?_ standing terminated spelled ?_
  · exact fun statement member => (phrases statement member).read fun token inStatement =>
      plain token (List.mem_flatMap_of_mem member inStatement)
  · exact fun statement member => allows statement.2 (isStatement statement member)

end RomanScript.Grammar
