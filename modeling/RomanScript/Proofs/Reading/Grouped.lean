import RomanScript.Proofs.Reading.Taking

/-!
# Operands in parentheses

Parentheses end by themselves: what follows can be no argument of theirs, and only an operator goes
on with the expression. So where the operands of a conditional stand in parentheses, each of them is
read as it was meant, at the first attempt.
-/

namespace RomanScript.Grammar

open Reading

/-- A node in parentheses is read from its start to its finish, whatever follows. -/
structure Grouped (input : Input) (start : Int) (node : Node) (finish : Int) : Prop where
  begins : input.Ahead [.openParen] start
  forward : start < finish
  taken : Category.atom.Taken input start node finish

variable {input : Input} {start finish : Int} {level : Nat} {node : Node}

/-- A term by itself is an expression. -/
theorem Phrase.of_term
    {tokens : List Token} (phrase : Phrase .term tokens node) :
    Phrase .expression tokens node :=
  have product : Phrase (.chain .product) tokens node := .operand (.unsigned phrase)
  .operand product

/-- What follows one part of an expression joins it to another one. -/
def joins : List Symbol := Tier.sum.operators ++ Tier.product.operators

private theorem not_ahead_joins (stops : ¬ input.Ahead continues finish) : ¬ input.Ahead joins finish :=
  fun ahead => stops (ahead.mono (by decide))

section Terminated

variable (terminated : input.Terminated) (nonneg : 0 ≤ start)

include terminated nonneg

/-- A chain of one part. -/
theorem takes_chain_once
    {symbol : Symbol} {operators : List Symbol} {operand : Reading Node} (forward : start ≤ finish)
    (stops : ¬ input.Ahead operators finish) (taken : Takes operand start level node finish) :
    Takes (chain input symbol operators operand) start level node finish := by
  unfold chain
  refine .bind taken (.withBudget fun steps more => ?_)
  cases steps with
  | zero => exact absurd more (Nat.not_lt_zero _)
  | succ steps =>
      unfold chainWithin
      exact .ifNotSees terminated (by omega) stops .pure

/-- A term without a sign that nothing is joined to is an expression. -/
theorem takes_expression_of_term
    {levels : Nat} (forward : start ≤ finish) (unsigned : ¬ input.Ahead [.plus, .minus] start)
    (stops : ¬ input.Ahead joins finish) (allows : input.Allows (level + 1) node)
    (taken : Takes (term input (expressionWithin input levels)) start (level + 1) node finish) :
    Takes (expressionWithin input (levels + 1)) start level node finish := by
  have signedTaken : Takes (signed input (expressionWithin input levels)) start (level + 1) node
      finish := by
    refine .withBudget fun steps more => ?_
    cases steps with
    | zero => exact absurd more (Nat.not_lt_zero _)
    | succ steps =>
        unfold signedWithin
        exact .ifNotSees terminated nonneg unsigned taken
  have productTaken : Takes (product input (expressionWithin input levels)) start (level + 1) node
      finish :=
    takes_chain_once terminated nonneg forward (fun ahead => stops (ahead.mono (by decide)))
      signedTaken
  have sumTaken : Takes (sum input (expressionWithin input levels)) start (level + 1) node
      finish :=
    takes_chain_once terminated nonneg forward (fun ahead => stops (ahead.mono (by decide)))
      productTaken
  exact .nested (fun limited => (allows limited).level_le) sumTaken

/-- Parentheses are an expression where nothing is joined to them. -/
theorem Grouped.takes_expression
    {levels : Nat} (grouped : Grouped input start node finish)
    (stops : ¬ input.Ahead joins finish) (enough : input.remaining start < levels)
    (allows : input.Allows (level + 1) node) :
    Takes (expressionWithin input levels) start level node finish := by
  have begins := grouped.begins
  cases levels with
  | zero => exact absurd enough (Nat.not_lt_zero _)
  | succ levels =>
      apply takes_expression_of_term terminated nonneg (Int.le_of_lt grouped.forward)
        (begins.not_ahead (by decide)) stops allows
      unfold term
      refine .ifNotSees terminated nonneg (begins.not_ahead (by decide)) ?_
      refine .ifNotSeesCall terminated nonneg
        (fun name => absurd name (begins.not_ahead (by decide))) ?_
      exact grouped.taken levels (level + 1) (by omega) allows

/-- A conditional whose operands stand in parentheses. -/
theorem whole_conditional
    {keyword : Token} {condition consequence alternative : Node} {second third : Int}
    (standing : input.At start [.keyword .choose] keyword)
    (groupedCondition : Grouped input (start + 1) condition second)
    (groupedConsequence : Grouped input second consequence third)
    (groupedAlternative : Grouped input third alternative finish) :
    Whole input start (.rule .conditional [.leaf keyword, condition, consequence, alternative])
      finish := by
  intro stops levels level enough allows
  have fewer := remaining_succ_lt terminated standing (by decide)
  have forward := groupedCondition.forward
  have behind := groupedConsequence.forward
  have last := groupedAlternative.forward
  have later : input.remaining second ≤ input.remaining (start + 1) := remaining_le (by omega)
  have latest : input.remaining third ≤ input.remaining second := remaining_le (by omega)
  cases levels with
  | zero => exact absurd enough (Nat.not_lt_zero _)
  | succ levels =>
      apply takes_expression_of_term terminated nonneg (by omega)
        (standing.not_ahead (by decide)) (not_ahead_joins stops) allows
      have allowsCondition : input.Allows (level + 1 + 1) condition :=
        allows.child (rfl : _[1]? = some condition)
      have allowsConsequence : input.Allows (level + 1 + 1) consequence :=
        allows.child (rfl : _[2]? = some consequence)
      have allowsAlternative : input.Allows (level + 1 + 1) alternative :=
        allows.child (rfl : _[3]? = some alternative)
      have takenCondition : Takes (expressionWithin input levels) (start + 1) (level + 1) _ _ :=
        groupedCondition.takes_expression terminated (by omega)
          (groupedConsequence.begins.not_ahead (by decide)) (by omega) allowsCondition
      have takenConsequence : Takes (expressionWithin input levels) second (level + 1) _ _ :=
        groupedConsequence.takes_expression terminated (by omega)
          (groupedAlternative.begins.not_ahead (by decide)) (by omega) allowsConsequence
      have takenAlternative : Takes (expressionWithin input levels) third (level + 1) _ _ :=
        groupedAlternative.takes_expression terminated (by omega) (not_ahead_joins stops)
          (by omega) allowsAlternative
      unfold term
      refine .ifSees standing (.remembering (by omega) ?_)
      unfold conditional
      refine .visit .conditional ?_
      refine .bind (.leaf terminated standing (by decide)) ?_
      refine .bind (.orElseAgain ?_) (.expressionRule allows)
      unfold operands
      apply Takes.withCalls
      exact .bind takenCondition (.bind takenConsequence (.bind takenAlternative .pure))

end Terminated

/-- Parentheses are read as an atom wherever they stand. -/
structure ReadGroup (tokens : List Token) (node : Node) : Prop extends
    Read .atom tokens node where
  opens : ∃ opening rest, tokens = opening :: rest ∧ opening.symbol = .openParen

/-- An expression that is read as a whole is read in parentheses. -/
theorem ReadWhole.group
    {opening closing : Token} {tokens : List Token} (isOpening : opening.symbol = .openParen)
    (read : ReadWhole tokens node) (isClosing : closing.symbol = .closeParen) :
    ReadGroup (opening :: tokens ++ [closing])
      (.rule .group [.leaf opening, node, .leaf closing]) where
  toRead := .group isOpening read isClosing
  opens := ⟨opening, _, rfl, isOpening⟩

private theorem ReadGroup.grouped
    {tokens : List Token} (read : ReadGroup tokens node) (terminated : input.Terminated)
    (nonneg : 0 ≤ start) (spelled : input.Spells start tokens finish) :
    Grouped input start node finish := by
  refine ⟨?_, read.phrase.forward spelled, read.taken terminated nonneg spelled⟩
  obtain ⟨opening, rest, rfl, isOpening⟩ := read.opens
  exact ⟨opening, spelled.1, List.mem_singleton.mpr isOpening⟩

/-- A conditional with operands in parentheses is read as a whole. -/
theorem ReadWhole.conditional
    {keyword : Token} {first second third : List Token}
    {condition consequence alternative : Node} (isKeyword : keyword.symbol = .keyword .choose)
    (readCondition : ReadGroup first condition) (readConsequence : ReadGroup second consequence)
    (readAlternative : ReadGroup third alternative) :
    ReadWhole (keyword :: (first ++ (second ++ third)))
      (.rule .conditional [.leaf keyword, condition, consequence, alternative]) where
  phrase :=
    .of_term (.conditional isKeyword (.of_term (.alone readCondition.phrase))
      (.of_term (.alone readConsequence.phrase)) (.of_term (.alone readAlternative.phrase)))
  whole terminated nonneg spelled := by
    obtain ⟨ahead, behind⟩ := spelled
    obtain ⟨_, spelledCondition, behind⟩ := spells_append.mp behind
    obtain ⟨_, spelledConsequence, spelledAlternative⟩ := spells_append.mp behind
    have grouped := readCondition.grouped terminated (by omega) spelledCondition
    have forward := grouped.forward
    have grouped' := readConsequence.grouped terminated (by omega) spelledConsequence
    have forward' := grouped'.forward
    exact whole_conditional terminated nonneg (at_of_eq ahead isKeyword) grouped grouped'
      (readAlternative.grouped terminated (by omega) spelledAlternative)

end RomanScript.Grammar
