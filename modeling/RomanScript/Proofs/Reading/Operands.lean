import RomanScript.Proofs.Reading.Merging
import RomanScript.Proofs.Reading.Visits

/-!
# Conditionals without calls

Three expressions without calls, one behind the other, are always read as the operands of a
conditional. If no name merges with what follows, they are so at the first attempt; if one does, the
first attempt starves, and the second one does not look for calls.
-/

namespace RomanScript.Grammar

open Reading

/-- Three expressions without calls in a row, behind which the last one does not go on and no other
expression begins. Only the first one may begin with a sign, which would join the others to what is
before them. -/
structure CallFreeOperands (input : Input) (group : Int → Node → Int → Prop)
    (start second third finish : Int) (condition consequence alternative : Node) : Prop where
  first : CallFree input group .expression start condition second
  middle : CallFree input group .expression second consequence third
  last : CallFree input group .expression third alternative finish
  unsignedMiddle : ¬ input.Ahead [.plus, .minus] second
  unsignedLast : ¬ input.Ahead [.plus, .minus] third
  ends : ¬ input.Ahead (binary ++ .keyword .choose :: atomStart) finish

variable {input : Input} {start second third finish : Int}
    {condition consequence alternative : Node}

namespace CallFreeOperands

section Group

variable {group : Int → Node → Int → Prop}
    (operands : CallFreeOperands input group start second third finish condition consequence
      alternative)

include operands

private theorem ends_second : ¬ input.Ahead binary second := by
  obtain ⟨token, standing⟩ := operands.middle.ahead_of_unsigned operands.unsignedMiddle
  exact standing.not_ahead (by decide)

private theorem ends_third : ¬ input.Ahead binary third := by
  obtain ⟨token, standing⟩ := operands.last.ahead_of_unsigned operands.unsignedLast
  exact standing.not_ahead (by decide)

private theorem ends_finish : ¬ input.Ahead binary finish :=
  fun ahead => operands.ends (ahead.mono (by decide))

private theorem not_merges_finish : ¬ input.Merges finish :=
  fun merges => operands.ends (merges.2.mono (by decide))

end Group

private theorem free
    (operands : CallFreeOperands input input.AcceptsGroup start second third finish condition
      consequence alternative)
    (terminated : input.Terminated) (nonneg : 0 ≤ start) (inside : start ≤ input.tokens.size) :
    CallFreeOperands input.free (Groups input.free (Starved input.free)) start second third finish
      condition consequence alternative := by
  have first := operands.first.free terminated nonneg inside
  have firstMoves := first.progress terminated.free inside
  have middle := operands.middle.free terminated (by omega) firstMoves.2
  have middleMoves := middle.progress terminated.free firstMoves.2
  have last := operands.last.free terminated (by omega) middleMoves.2
  exact ⟨first, middle, last, operands.unsignedMiddle, operands.unsignedLast, operands.ends⟩

section Derivation

variable
    (operands : CallFreeOperands input (Groups input (Starved input)) start second third finish
      condition consequence alternative)
    (terminated : input.Terminated) (off : input.settings.remembers = false)
    (unlimited : input.settings.limited = false)
    (nonneg : 0 ≤ start) (inside : start ≤ input.tokens.size)

include operands terminated off unlimited nonneg inside

/-- If two of the operands merge, at most two expressions are left of them. -/
theorem atMost_two
    (merges : input.Merges second ∨ input.Merges third) :
    AtMost input (Starved input) 2 start := by
  have firstMoves := operands.first.progress terminated inside
  have middleMoves := operands.middle.progress terminated firstMoves.2
  have closesFinish : ClosesBefore input (Starved input) 0 finish :=
    closes_of_alone operands.not_merges_finish operands.ends_finish
      (atMost_zero_of_not_ahead operands.ends)
  have swallowsThird : Swallows input (Starved input) 0 third :=
    operands.last.swallows operands.unsignedLast (swallows_zero_of_not_ahead operands.ends)
      closesFinish
  have atMostThird : AtMost input (Starved input) 1 third :=
    operands.last.atMost terminated off unlimited (by omega) middleMoves.2 closesFinish
  by_cases mergesThird : input.Merges third
  · have closesThird : ClosesBefore input (Starved input) 0 third :=
      closes_of_merges mergesThird swallowsThird
    have swallowsSecond : Swallows input (Starved input) 0 second :=
      operands.middle.swallows operands.unsignedMiddle swallowsThird closesThird
    have atMostSecond : AtMost input (Starved input) 1 second :=
      operands.middle.atMost terminated off unlimited (by omega) firstMoves.2 closesThird
    by_cases mergesSecond : input.Merges second
    · exact (operands.first.atMost terminated off unlimited nonneg inside
        (closes_of_merges mergesSecond swallowsSecond)).succ
    · exact operands.first.atMost terminated off unlimited nonneg inside
        (closes_of_alone mergesSecond operands.ends_second atMostSecond)
  · have mergesSecond : input.Merges second := merges.resolve_right mergesThird
    have closesThird : ClosesBefore input (Starved input) 1 third :=
      closes_of_alone mergesThird operands.ends_third atMostThird
    have swallowsSecond : Swallows input (Starved input) 1 second :=
      operands.middle.swallows operands.unsignedMiddle swallowsThird.succ closesThird
    exact operands.first.atMost terminated off unlimited nonneg inside
      (closes_of_merges mergesSecond swallowsSecond)

/-- The operands are those of a conditional, with calls if nothing merges and else without. -/
theorem reads_conditional
    {keyword : Token} {before : Int} (isBefore : before + 1 = start)
    (standing : input.At before [.keyword .choose] keyword) :
    Reads input (Starved input) (.rule .conditional) before
      [.rule .conditional [.leaf keyword, condition, consequence, alternative]] finish := by
  subst isBefore
  have reads : ∀ calls : Bool, (calls = true → ¬ (input.Merges second ∨ input.Merges third)) →
      (calls = false → Starved input (before + 1)) →
        Reads input (Starved input) (.rule .conditional) before
          [.rule .conditional [.leaf keyword, condition, consequence, alternative]] finish := by
    intro calls alone hungry
    have first : Reads input (Starved input) (.expression calls) (before + 1) [condition] second :=
      operands.first.reads_expression (fun recognised merges => alone recognised (.inl merges))
        operands.ends_second
    have middle : Reads input (Starved input) (.expression calls) second [consequence] third :=
      operands.middle.reads_expression (fun recognised merges => alone recognised (.inr merges))
        operands.ends_third
    have last : Reads input (Starved input) (.expression calls) third [alternative] finish :=
      operands.last.reads_expression (fun _ => operands.not_merges_finish) operands.ends_finish
    exact .conditional standing first middle last hungry
  by_cases merges : input.Merges second ∨ input.Merges third
  · have starved : Starved input (before + 1) :=
      starved_of_atMost terminated off unlimited nonneg inside
        (operands.atMost_two terminated off unlimited nonneg inside merges)
    exact reads false (fun recognised => absurd recognised Bool.false_ne_true) fun _ => starved
  · exact reads true (fun _ => merges) fun greedy => absurd greedy.symm Bool.false_ne_true

end Derivation

/-- Whatever a run that crosses no limit remembers of a conditional with such operands is the
conditional with exactly these operands. -/
theorem result_eq
    (operands : CallFreeOperands input input.AcceptsGroup (start + 1) second third finish condition
      consequence alternative)
    (terminated : input.Terminated) (unrefused : (program input State.start).2.refusals = 0)
    (nonneg : 0 ≤ start) {keyword : Token} (standing : input.At start [.keyword .choose] keyword)
    {entry : Remembered} (member : entry ∈ (program input State.start).2.memory)
    (isConditional : entry.symbol = .conditional) (isStart : entry.start = start) :
    entry.result =
      .ok (.rule .conditional [.leaf keyword, condition, consequence, alternative], finish) := by
  have inside := standing.lt_size terminated (by decide)
  have operandsFree := operands.free terminated (by omega) (by omega)
  have reads := operandsFree.reads_conditional terminated.free rfl rfl (by omega)
    (Int.add_one_le_of_lt inside) rfl standing
  have found := reads.found terminated.free rfl rfl nonneg (Int.le_of_lt inside)
  obtain ⟨_, ⟨⟩, after, read, rfl⟩ :=
    found input.tokens.size { State.start with position := start } rfl
      (by dsimp only [Input.free]; omega)
  have grown : Grows input.free { State.start with position := start }
      (bodyOf input.free .conditional input.tokens.size
        { State.start with position := start }).2 := Keeps.grows _
  have settled := settles_program terminated unrefused entry member
  rw [isConditional, isStart] at settled
  exact (settled input.tokens.size { State.start with position := start } _ rfl
    (by rw [read]; rfl) (grown.unlimited rfl)).symm

end CallFreeOperands

/-- If no limit is crossed while a program is read, a conditional that has begun before three
expressions without calls is read with exactly these operands. -/
theorem remembered_conditional_of_callFree
    {keyword : Token} (terminated : input.Terminated)
    (unrefused : (program input State.start).2.refusals = 0) (nonneg : 0 ≤ start)
    (standing : input.At start [.keyword .choose] keyword)
    (operands : CallFreeOperands input input.AcceptsGroup (start + 1) second third finish condition
      consequence alternative)
    (begun : (.conditional, start) ∈ (program input State.start).2.visits) :
    (∃ entry ∈ (program input State.start).2.memory,
        entry.symbol = .conditional ∧ entry.start = start) ∧
      ∀ entry ∈ (program input State.start).2.memory,
        entry.symbol = .conditional → entry.start = start →
          entry.result =
            .ok (.rule .conditional [.leaf keyword, condition, consequence, alternative],
              finish) := by
  constructor
  · obtain ⟨entry, member, same⟩ := exists_entry_of_visit terminated begun
    rw [Prod.mk.injEq] at same
    exact ⟨entry, member, same⟩
  · intro entry member isConditional isStart
    exact operands.result_eq terminated unrefused nonneg standing member isConditional isStart

/-- A conditional whose operands all merge: a name, a group that it is called with, and a name that
follows the group. -/
def mergingInput : Input :=
  ⟨Tree.repeatedGroup.toArray, none, .full⟩

def mergingGroup : Node :=
  .rule .group [.leaf ⟨.openParen, "(", 1, 3⟩, .leaf ⟨.numeral, "I", 1, 4⟩,
    .leaf ⟨.closeParen, ")", 1, 5⟩]

private theorem callFreeOperands_merging :
    CallFreeOperands mergingInput mergingInput.AcceptsGroup 2 3 6 7
      (.leaf ⟨.identifier, "x", 1, 2⟩) mergingGroup (.leaf ⟨.identifier, "y", 1, 6⟩) := by
  have opening : mergingInput.At 3 [.openParen] ⟨.openParen, "(", 1, 3⟩ := ⟨rfl, by decide⟩
  have name : mergingInput.At 6 [.identifier] ⟨.identifier, "y", 1, 6⟩ := ⟨rfl, by decide⟩
  have behind : mergingInput.At 7 [.endOfText] ⟨.endOfText, "", 1, 7⟩ := ⟨rfl, by decide⟩
  have accepts : mergingInput.AcceptsGroup 3 mergingGroup 6 :=
    ⟨2, { State.start with position := 3 }, _, rfl, rfl, rfl, rfl, rfl⟩
  have single : ∀ {start finish : Int} {node : Node},
      CallFree mergingInput mergingInput.AcceptsGroup .atom start node finish →
        CallFree mergingInput mergingInput.AcceptsGroup .expression start node finish :=
    fun atom =>
      have product : CallFree mergingInput mergingInput.AcceptsGroup (.chain .product) _ _ _ :=
        .operand (.unsigned atom)
      .operand product
  exact {
    first := single (.leaf ⟨rfl, by decide⟩)
    middle := single (.group opening accepts)
    last := single (.leaf ⟨rfl, by decide⟩)
    unsignedMiddle := opening.not_ahead (by decide)
    unsignedLast := name.not_ahead (by decide)
    ends := behind.not_ahead (by decide) }

theorem remembered_conditional_of_callFree_merging :
    (program mergingInput State.start).2.refusals = 0 ∧
      (.conditional, 1) ∈ (program mergingInput State.start).2.visits ∧
        ∃ entry ∈ (program mergingInput State.start).2.memory,
          entry.symbol = .conditional ∧ entry.start = 1 ∧
            entry.result = .ok (.rule .conditional
              [.leaf ⟨.keyword .choose, "Sinon", 1, 1⟩, .leaf ⟨.identifier, "x", 1, 2⟩,
                mergingGroup, .leaf ⟨.identifier, "y", 1, 6⟩], 7) := by
  have terminated : mergingInput.Terminated := Tree.terminated_of_getLast? rfl none .full
  have unrefused : (program mergingInput State.start).2.refusals = 0 := by decide +kernel
  have begun : (.conditional, 1) ∈ (program mergingInput State.start).2.visits := by
    decide +kernel
  obtain ⟨⟨entry, member, isConditional, isStart⟩, results⟩ :=
    remembered_conditional_of_callFree terminated unrefused (by decide) ⟨rfl, by decide⟩
      callFreeOperands_merging begun
  exact ⟨unrefused, begun, entry, member, isConditional, isStart,
    results entry member isConditional isStart⟩

end RomanScript.Grammar
