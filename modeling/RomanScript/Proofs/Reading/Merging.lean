import RomanScript.Proofs.Reading.CallFree

/-!
# Operands that merge

With calls, a name at the end of one operand takes the atom at the beginning of the next one as an
argument. What is left of the next operand then belongs to the first one, and so on, perhaps to the
end of the last operand. So as soon as two of three operands merge, no three expressions can be read
any more, in whatever way they merge.
-/

namespace RomanScript.Grammar

open Reading

variable {input : Input} {starved : Int → Prop} {category : Category} {start finish : Int}
    {node : Node} {number : Nat}

/-- What is read behind the last term of a part, whatever has been read before. -/
inductive GoesOn (input : Input) (starved : Int → Prop) (calls : Bool) :
    Category → Int → Int → Prop
  | atom {place : Int} : GoesOn input starved calls .atom place place
  | signed {place : Int} : GoesOn input starved calls .signed place place
  | chain {tier : Tier} {place middle goal : Int} :
      GoesOn input starved calls tier.operandCategory place middle →
      (∀ left, ∃ result, Reads input starved (.rest tier calls left) middle [result] goal) →
      GoesOn input starved calls (.chain tier) place goal

/-- The part that is derived for a kind of expressions; an atom stands for a term. -/
def Category.part (calls : Bool) : Category → Part
  | .signed => .signed calls
  | .chain tier => .chain tier calls
  | _ => .term calls

private theorem part_operandCategory (tier : Tier) (calls : Bool) :
    tier.operandCategory.part calls = tier.operand calls := by
  cases tier <;> rfl

/-- Wherever another term is read at `last`, the part from `start` on is read with it. -/
def Leads (input : Input) (starved : Int → Prop) (category : Category) (start last : Int) : Prop :=
  ∀ calls term behind goal, Reads input starved (.term calls) last [term] behind →
    GoesOn input starved calls category behind goal →
      ∃ result, Reads input starved (category.part calls) start [result] goal

/-- Wherever another term is read at `last`, a part that has come to `place` goes on with it. -/
def Carries (input : Input) (starved : Int → Prop) (category : Category) (place last : Int) :
    Prop :=
  ∀ calls term behind goal, Reads input starved (.term calls) last [term] behind →
    GoesOn input starved calls category behind goal →
      GoesOn input starved calls category place goal

/-- Where no operator of a tier that binds more tightly follows, an operand has ended. -/
theorem GoesOn.here
    {tier : Tier} {calls : Bool} {place : Int} (loose : ¬ input.Ahead tier.tighter place) :
    GoesOn input starved calls tier.operandCategory place place := by
  cases tier with
  | product => exact .signed
  | sum =>
      have operand : GoesOn input starved calls Tier.product.operandCategory place place := .signed
      exact .chain operand fun left => ⟨left, .noRest loose⟩

/-- An expression goes nowhere where no operator follows. -/
theorem GoesOn.expression
    {calls : Bool} {place : Int} (ends : ¬ input.Ahead binary place) :
    GoesOn input starved calls .expression place place := by
  have product : GoesOn input starved calls Tier.sum.operandCategory place place :=
    .here (not_ahead_operators ends .product)
  exact .chain product fun left => ⟨left, .noRest (not_ahead_operators ends .sum)⟩

private theorem not_ahead_tighter
    {tier : Tier} {operator : Token} (standing : input.At start tier.operators operator) :
    ¬ input.Ahead tier.tighter start :=
  standing.not_ahead (by cases tier <;> decide)

/-- Behind the left part of a joined expression, the operator and the right part follow. -/
theorem exists_rest_of_joined
    {tier : Tier} {calls : Bool} {middle last behind goal : Int} {operator : Token} {term : Node}
    (standing : input.At middle tier.operators operator)
    (leads : Leads input starved tier.operandCategory (middle + 1) last)
    (reads : Reads input starved (.term calls) last [term] behind)
    (goesOn : GoesOn input starved calls (.chain tier) behind goal) (left : Node) :
    ∃ result, Reads input starved (.rest tier calls left) middle [result] goal := by
  cases goesOn with
  | chain operand rest =>
      obtain ⟨right, readsRight⟩ := leads calls term behind _ reads operand
      obtain ⟨result, readsRest⟩ := rest (.rule tier.symbol [left, .leaf operator, right])
      rw [part_operandCategory] at readsRight
      exact ⟨result, .moreRest standing readsRight readsRest⟩

/-- An expression without calls is read up to its last atom, whatever is read from there on. -/
theorem CallFree.exists_last
    (callFree : CallFree input (Groups input starved) category start node finish) :
    ∃ last atom, CallFree input (Groups input starved) .atom last atom finish ∧
      Leads input starved category start last := by
  induction callFree with
  | leaf standing =>
      refine ⟨_, _, .leaf standing, fun calls term behind goal reads goesOn => ?_⟩
      cases goesOn with
      | atom => exact ⟨term, reads⟩
  | group opening group =>
      refine ⟨_, _, .group opening group, fun calls term behind goal reads goesOn => ?_⟩
      cases goesOn with
      | atom => exact ⟨term, reads⟩
  | sign token _ operand =>
      obtain ⟨last, atom, callFree, leads⟩ := operand
      refine ⟨last, atom, callFree, fun calls term behind goal reads goesOn => ?_⟩
      obtain ⟨result, readsResult⟩ := leads calls term behind goal reads goesOn
      exact ⟨_, .sign token readsResult⟩
  | unsigned single atom =>
      obtain ⟨last, atom, callFree, leads⟩ := atom
      obtain ⟨token, standing⟩ := single.ahead_atomStart
      refine ⟨last, atom, callFree, fun calls term behind goal reads goesOn => ?_⟩
      cases goesOn with
      | signed =>
          obtain ⟨result, readsResult⟩ := leads calls term behind behind reads .atom
          exact ⟨result, .unsigned (standing.not_ahead (by decide)) readsResult⟩
  | operand _ operand =>
      obtain ⟨last, atom, callFree, leads⟩ := operand
      refine ⟨last, atom, callFree, fun calls term behind goal reads goesOn => ?_⟩
      cases goesOn with
      | chain operand rest =>
          obtain ⟨first, readsFirst⟩ := leads calls term behind _ reads operand
          obtain ⟨result, readsRest⟩ := rest first
          rw [part_operandCategory] at readsFirst
          exact ⟨result, .chain readsFirst readsRest⟩
  | @joined tier _ _ _ _ left _ callFreeLeft operator _ _ right =>
      obtain ⟨last, atom, callFree, leads⟩ := right
      refine ⟨last, atom, callFree, fun calls term behind goal reads goesOn => ?_⟩
      obtain ⟨result, readsRest⟩ := exists_rest_of_joined operator leads reads goesOn left
      exact ⟨result, callFreeLeft.kept calls (fun _ => not_merges_of_at operator)
        (not_ahead_tighter operator) result goal readsRest⟩

/-- Behind the first atom of an expression without calls, either the expression has ended, or it
goes on with an operator, up to its last atom and whatever is read from there on. -/
theorem CallFree.exists_first
    (callFree : CallFree input (Groups input starved) category start node finish)
    (unsigned : ¬ input.Ahead [.plus, .minus] start) :
    ∃ first place, CallFree input (Groups input starved) .atom start first place ∧
      (place = finish ∨ ¬ input.Ahead atomStart place ∧ ∃ last atom,
        CallFree input (Groups input starved) .atom last atom finish ∧
          Carries input starved category place last) := by
  induction callFree with
  | leaf standing => exact ⟨_, _, .leaf standing, .inl rfl⟩
  | group opening group => exact ⟨_, _, .group opening group, .inl rfl⟩
  | sign token => exact absurd ⟨_, token⟩ unsigned
  | unsigned single => exact ⟨_, _, single, .inl rfl⟩
  | operand _ operand =>
      obtain ⟨first, place, callFree, ended | ⟨noAtom, last, atom, callFreeLast, carries⟩⟩ :=
        operand unsigned
      · exact ⟨first, place, callFree, .inl ended⟩
      · refine ⟨first, place, callFree, .inr ⟨noAtom, last, atom, callFreeLast, ?_⟩⟩
        intro calls term behind goal reads goesOn
        cases goesOn with
        | chain operand rest => exact .chain (carries calls term behind _ reads operand) rest
  | @joined tier _ middle _ _ _ _ _ operator callFreeRight left _ =>
      obtain ⟨last, atom, callFreeLast, leads⟩ := callFreeRight.exists_last
      have carries : Carries input starved (.chain tier) middle last :=
        fun calls term behind goal reads goesOn =>
          .chain (.here (not_ahead_tighter operator))
            (exists_rest_of_joined operator leads reads goesOn)
      obtain ⟨first, place, callFree,
        rfl | ⟨noAtom, middleLast, middleAtom, middleCallFree, before⟩⟩ := left unsigned
      · refine ⟨first, place, callFree, .inr ⟨?_, last, atom, callFreeLast, carries⟩⟩
        exact operator.not_ahead (by cases tier <;> decide)
      · refine ⟨first, place, callFree, .inr ⟨noAtom, last, atom, callFreeLast, ?_⟩⟩
        -- The last atom of the left part is a term as it is, for an operator follows.
        intro calls term behind goal reads goesOn
        have single : Reads input starved (.term calls) middleLast [middleAtom] middle :=
          middleCallFree.reads_term fun _ => not_merges_of_at operator
        exact before calls middleAtom middle goal single
          (carries calls term behind goal reads goesOn)

/-- From a position on, at most so many expressions with calls can be read in a row. -/
def AtMost (input : Input) (starved : Int → Prop) : Nat → Int → Prop
  | 0, start => ∀ node finish, ¬ Reads input starved (.expression true) start [node] finish
  | number + 1, start => ∀ node finish,
      Reads input starved (.expression true) start [node] finish →
        AtMost input starved number finish

theorem AtMost.succ
    (atMost : AtMost input starved number start) : AtMost input starved (number + 1) start := by
  induction number generalizing start with
  | zero => exact fun node finish reads => absurd reads (atMost node finish)
  | succ number inductionHypothesis =>
      exact fun node finish reads => inductionHypothesis (atMost node finish reads)

/-- A call that takes its arguments from a position on can be completed to an expression behind
which at most so many expressions can be read. -/
def Swallows (input : Input) (starved : Int → Prop) (number : Nat) (start : Int) : Prop :=
  ∃ arguments behind goal, Reads input starved .atoms start arguments behind ∧
    GoesOn input starved true .expression behind goal ∧ AtMost input starved number goal

theorem Swallows.succ
    (swallows : Swallows input starved number start) :
    Swallows input starved (number + 1) start := by
  obtain ⟨arguments, behind, goal, reads, goesOn, atMost⟩ := swallows
  exact ⟨arguments, behind, goal, reads, goesOn, atMost.succ⟩

private theorem Reads.ahead_begins
    {calls : Bool} {nodes : List Node}
    (reads : Reads input starved (.expression calls) start nodes finish) :
    input.Ahead ([.plus, .minus, .keyword .choose] ++ atomStart) start := by
  cases reads with
  | chain product _ =>
      cases product with
      | chain signed _ =>
          cases signed with
          | sign token => exact .mono ⟨_, token⟩ (by decide)
          | unsigned _ term =>
              cases term with
              | call callee => exact .mono ⟨_, callee⟩ (by decide)
              | atomTerm atom => exact atom.ahead_atomStart.mono (by decide)
              | conditionalTerm conditional => exact conditional.ahead_choose.mono (by decide)

/-- Where no expression begins and no operator follows, there is nothing to be read. -/
theorem atMost_zero_of_not_ahead
    (ends : ¬ input.Ahead (binary ++ .keyword .choose :: atomStart) start) :
    AtMost input starved 0 start :=
  fun _ _ reads => ends (reads.ahead_begins.mono (by decide))

theorem swallows_zero_of_not_ahead
    (ends : ¬ input.Ahead (binary ++ .keyword .choose :: atomStart) start) :
    Swallows input starved 0 start :=
  ⟨[], start, start, .noAtoms fun ahead => ends (ahead.mono (by decide)),
    .expression fun ahead => ends (ahead.mono (by decide)), atMost_zero_of_not_ahead ends⟩

/-- Where a name merges, the last atom is that name. -/
theorem CallFree.reads_call_of_merges
    {last behind : Int} {atom : Node} {arguments : List Node}
    (callFree : CallFree input (Groups input starved) .atom last atom finish)
    (merges : input.Merges finish)
    (reads : Reads input starved .atoms finish arguments behind) :
    ∃ term, Reads input starved (.term true) last [term] behind := by
  obtain ⟨name, argument⟩ := merges
  cases callFree with
  | leaf =>
      rw [Int.add_sub_cancel] at name
      obtain ⟨callee, standing⟩ := name
      exact ⟨_, .call standing argument reads⟩
  | group _ group =>
      cases group with
      | group _ _ closing =>
          rw [Int.add_sub_cancel] at name
          exact absurd name (closing.not_ahead (by decide))

/-- A term that is read where the last atom before a position begins can be completed to an
expression behind which at most so many expressions can be read. -/
def ClosesBefore (input : Input) (starved : Int → Prop) (number : Nat) (finish : Int) : Prop :=
  ∀ last atom, CallFree input (Groups input starved) .atom last atom finish →
    ∃ term behind goal, Reads input starved (.term true) last [term] behind ∧
      GoesOn input starved true .expression behind goal ∧ AtMost input starved number goal

/-- A name that merges is called with what follows. -/
theorem closes_of_merges
    (merges : input.Merges finish) (swallows : Swallows input starved number finish) :
    ClosesBefore input starved number finish := by
  intro last atom callFree
  obtain ⟨arguments, behind, goal, reads, goesOn, atMost⟩ := swallows
  obtain ⟨term, readsTerm⟩ := callFree.reads_call_of_merges merges reads
  exact ⟨term, behind, goal, readsTerm, goesOn, atMost⟩

/-- An atom that does not merge is a term as it is. -/
theorem closes_of_alone
    (alone : ¬ input.Merges finish) (ends : ¬ input.Ahead binary finish)
    (atMost : AtMost input starved number finish) :
    ClosesBefore input starved number finish :=
  fun _ atom callFree =>
    ⟨atom, finish, finish, callFree.reads_term fun _ => alone, .expression ends, atMost⟩

/-- Of an operand a call takes the first atom, and the operators behind that go on with the call.
Only from a single atom the arguments go on to the next operand. -/
theorem CallFree.swallows
    (callFree : CallFree input (Groups input starved) .expression start node finish)
    (unsigned : ¬ input.Ahead [.plus, .minus] start)
    (swallows : Swallows input starved number finish)
    (closes : ClosesBefore input starved number finish) : Swallows input starved number start := by
  obtain ⟨first, place, single, rfl | ⟨noAtom, last, atom, callFreeLast, carries⟩⟩ :=
    callFree.exists_first unsigned
  · obtain ⟨arguments, behind, goal, reads, goesOn, atMost⟩ := swallows
    exact ⟨first :: arguments, behind, goal, .moreAtoms single.reads_atom reads, goesOn, atMost⟩
  · obtain ⟨term, behind, goal, reads, goesOn, atMost⟩ := closes last atom callFreeLast
    exact ⟨[first], place, goal, .moreAtoms single.reads_atom (.noAtoms noAtom),
      carries true term behind goal reads goesOn, atMost⟩

section Terminated

variable (terminated : input.Terminated) (off : input.settings.remembers = false)
    (unlimited : input.settings.limited = false)

include terminated off unlimited

/-- Two expressions that are read from one position on with calls end at the same position. -/
theorem finish_unique
    {other : Node} {otherFinish : Int} (nonneg : 0 ≤ start) (inside : start ≤ input.tokens.size)
    (reads : Reads input (Starved input) (.expression true) start [node] finish)
    (otherReads : Reads input (Starved input) (.expression true) start [other] otherFinish) :
    finish = otherFinish := by
  have enough : input.tokens.size - start ≤ ((input.tokens.size - start).toNat : Int) := by omega
  obtain ⟨_, _, after, read, rfl⟩ := reads.found terminated off unlimited nonneg inside
    (input.tokens.size - start).toNat { State.start with position := start } rfl rfl enough
  obtain ⟨_, _, otherAfter, otherRead, rfl⟩ := otherReads.found terminated off unlimited nonneg
    inside (input.tokens.size - start).toNat { State.start with position := start } rfl rfl enough
  rw [read, Prod.mk.injEq] at otherRead
  rw [otherRead.2]

/-- From an operand on, one expression more can be read than its last atom leaves. -/
theorem CallFree.atMost
    (callFree : CallFree input (Groups input (Starved input)) .expression start node finish)
    (nonneg : 0 ≤ start) (inside : start ≤ input.tokens.size)
    (closes : ClosesBefore input (Starved input) number finish) :
    AtMost input (Starved input) (number + 1) start := by
  obtain ⟨last, atom, callFreeLast, leads⟩ := callFree.exists_last
  obtain ⟨term, behind, goal, readsTerm, goesOn, atMost⟩ := closes last atom callFreeLast
  obtain ⟨result, readsResult⟩ := leads true term behind goal readsTerm goesOn
  intro other otherFinish otherReads
  rw [← finish_unique terminated off unlimited nonneg inside readsResult otherReads]
  exact atMost

/-- Where no three expressions with calls can be read in a row, a conditional starves. -/
theorem starved_of_atMost
    (nonneg : 0 ≤ start) (inside : start ≤ input.tokens.size)
    (atMost : AtMost input (Starved input) 2 start) : Starved input start := by
  have ready : Ready input (Starved input) { State.start with position := start } :=
    ⟨nonneg, inside, fun _ _ member => absurd member List.not_mem_nil⟩
  have ended := ends_operands terminated (parses_wholeExpression terminated
    (starves_starved terminated off unlimited)) true ready nonneg
  unfold Starved
  generalize operands (wholeExpression input) true { State.start with position := start } = outcome
    at ended ⊢
  cases ended with
  | diagnostic => exact ⟨_, _, rfl⟩
  | value _ derived =>
      obtain ⟨condition, consequence, alternative, second, third, -, first, middle, last⟩ := derived
      have atMostOne : AtMost input (Starved input) 1 second := atMost condition second first
      have none : AtMost input (Starved input) 0 third := atMostOne consequence third middle
      exact absurd last (none alternative _)

end Terminated

end RomanScript.Grammar
