import RomanScript.Proofs.Reading.Completeness
import RomanScript.Proofs.Reading.Phrase
import RomanScript.Proofs.Reading.Unrefused
import RomanScript.Proofs.Reading.Walk

/-!
# Expressions without calls

Signs and operators around single atoms, without conditionals and without calls outside parentheses.
Whether calls are recognised matters to the reading of such an expression at its end only: there a
name may take what follows as its arguments. Where it does not, the expression is read as it is.
-/

namespace RomanScript.Grammar

open Reading

/-- By itself, with nothing remembered and without a limit being crossed, the rule for parentheses
gives this node and ends at this position. -/
def Input.AcceptsGroup (input : Input) (start : Int) (node : Node) (finish : Int) : Prop :=
  ∃ (levels : Nat) (s after : State), s.position = start ∧ s.memory = [] ∧
    group input (expressionWithin input levels) s = (.ok node, after) ∧
      after.position = finish ∧ after.refusals = s.refusals

/-- The expressions without calls from one position to another, with their nodes. What is in
parentheses counts as one atom, of which `group` tells where it ends. -/
inductive CallFree (input : Input) (group : Int → Node → Int → Prop) :
    Category → Int → Node → Int → Prop
  | leaf {start : Int} {token : Token} :
      input.At start [.numeral, .identifier, .keyword .input] token →
      CallFree input group .atom start (.leaf token) (start + 1)
  | group {start finish : Int} {opening : Token} {node : Node} :
      input.At start [.openParen] opening → group start node finish →
      CallFree input group .atom start node finish
  | sign {start finish : Int} {token : Token} {operand : Node} :
      input.At start [.plus, .minus] token →
      CallFree input group .signed (start + 1) operand finish →
      CallFree input group .signed start (.rule .signed [.leaf token, operand]) finish
  | unsigned {start finish : Int} {node : Node} :
      CallFree input group .atom start node finish → CallFree input group .signed start node finish
  | operand {tier : Tier} {start finish : Int} {node : Node} :
      CallFree input group tier.operandCategory start node finish →
      CallFree input group (.chain tier) start node finish
  | joined {tier : Tier} {start middle finish : Int} {operator : Token} {left right : Node} :
      CallFree input group (.chain tier) start left middle →
      input.At middle tier.operators operator →
      CallFree input group tier.operandCategory (middle + 1) right finish →
      CallFree input group (.chain tier) start (.rule tier.symbol [left, .leaf operator, right])
        finish

def Groups (input : Input) (starved : Int → Prop) (start : Int) (node : Node) (finish : Int) :
    Prop :=
  Reads input starved (.rule .group) start [node] finish

variable {input : Input} {starved : Int → Prop} {category : Category} {start finish : Int}
    {node : Node}

theorem CallFree.progress
    (terminated : input.Terminated)
    (callFree : CallFree input (Groups input starved) category start node finish)
    (inside : start ≤ input.tokens.size) :
    start < finish ∧ finish ≤ input.tokens.size := by
  induction callFree with
  | leaf standing =>
      have bound := standing.lt_size terminated (by decide)
      exact ⟨by omega, by omega⟩
  | group _ group =>
      have moves := group.progress terminated inside
      exact ⟨moves.2.2 trivial, moves.2.1⟩
  | sign token _ operand =>
      have bound := token.lt_size terminated (by decide)
      have moves := operand (by omega)
      exact ⟨by omega, moves.2⟩
  | unsigned _ atom => exact atom inside
  | operand _ operand => exact operand inside
  | @joined tier _ _ _ _ _ _ _ operator _ left right =>
      have bound := operator.lt_size terminated (by cases tier <;> decide)
      have leftMoves := left inside
      have rightMoves := right (by omega)
      exact ⟨by omega, rightMoves.2⟩

theorem CallFree.ahead_atomStart
    {group : Int → Node → Int → Prop} (atom : CallFree input group .atom start node finish) :
    input.Ahead atomStart start := by
  cases atom with
  | leaf standing => exact .mono ⟨_, standing⟩ (by decide)
  | group opening => exact .mono ⟨_, opening⟩ (by decide)

/-- An expression without a sign in front begins with an atom. -/
theorem CallFree.ahead_of_unsigned
    {group : Int → Node → Int → Prop} (callFree : CallFree input group category start node finish)
    (unsigned : ¬ input.Ahead [.plus, .minus] start) : input.Ahead atomStart start := by
  induction callFree with
  | leaf standing => exact .mono ⟨_, standing⟩ (by decide)
  | group opening => exact .mono ⟨_, opening⟩ (by decide)
  | sign token => exact absurd ⟨_, token⟩ unsigned
  | unsigned _ atom => exact atom unsigned
  | operand _ operand => exact operand unsigned
  | joined _ _ _ left => exact left unsigned

theorem Input.Terminated.free (terminated : input.Terminated) : input.free.Terminated :=
  terminated

/-- A group that is accepted by itself is one that can be derived without limits and memory. -/
theorem Input.AcceptsGroup.reads
    {opening : Token} (accepts : input.AcceptsGroup start node finish)
    (terminated : input.Terminated) (nonneg : 0 ≤ start)
    (standing : input.At start [.openParen] opening) :
    Groups input.free (Starved input.free) start node finish := by
  obtain ⟨levels, s, after, rfl, memory, read, rfl, unrefused⟩ := accepts
  have inside := standing.lt_size terminated (by decide)
  have lawful : (liberation input s.refusals).Lawful := liberation_lawful
  have related : (liberation input s.refusals).states 0 s
      { State.start with position := s.position, calls := s.calls } :=
    ⟨rfl, rfl, Nat.le_refl _, memory ▸ List.forall_mem_nil _⟩
  have beside := Simulation.follows_group
    (Simulation.follows_expressionWithin lawful liberation_remembers levels
      (input.tokens.size + 1)) lawful 0 s _ related ⟨opening, standing⟩
  have expression := parses_expressionWithin terminated.free
    (starves_starved terminated.free rfl rfl) (input.tokens.size + 1)
  have ready : Ready input.free (Starved input.free)
      { State.start with position := s.position, calls := s.calls } :=
    ⟨nonneg, Int.le_of_lt inside, nofun⟩
  have derived := (ends_group terminated.free expression ready
    (by dsimp only [Input.free]; omega) (.inl inside)).imp
      fun _ _ reads => reads ⟨opening, standing⟩
  rw [read] at beside
  generalize group input.free (expressionWithin input.free (input.tokens.size + 1))
    { State.start with position := s.position, calls := s.calls } = outcome at beside derived
  cases beside with
  | rightMisuse => cases derived
  | excused excuse => exact absurd unrefused (Nat.ne_of_gt excuse)
  | value valued =>
      obtain ⟨rfl, position, _⟩ := valued
      cases derived with
      | value _ reads => exact position ▸ reads

/-- What is accepted without limits being crossed can be derived without limits and memory. -/
theorem CallFree.free
    (callFree : CallFree input input.AcceptsGroup category start node finish)
    (terminated : input.Terminated) (nonneg : 0 ≤ start) (inside : start ≤ input.tokens.size) :
    CallFree input.free (Groups input.free (Starved input.free)) category start node finish := by
  induction callFree with
  | leaf standing => exact .leaf standing
  | group opening accepts => exact .group opening (accepts.reads terminated nonneg opening)
  | sign token _ operand =>
      have bound := token.lt_size terminated (by decide)
      exact .sign token (operand (by omega) (by omega))
  | unsigned _ atom => exact .unsigned (atom nonneg inside)
  | operand _ operand => exact .operand (operand nonneg inside)
  | @joined tier _ _ _ _ _ _ _ operator _ left right =>
      have bound := operator.lt_size terminated (by cases tier <;> decide)
      have leftFree := left nonneg inside
      have moves := leftFree.progress terminated.free inside
      exact .joined leftFree operator (right (by omega) (by omega))

/-- A name ends at a position and an atom begins there: with calls, the one is called with the
other. -/
def Input.Merges (input : Input) (position : Int) : Prop :=
  input.Ahead [.identifier] (position - 1) ∧ input.Ahead atomStart position

def Tier.tighter : Tier → List Symbol
  | product => []
  | sum => product.operators

/-- An expression is derived as it is, provided that nothing at its end belongs to it; a chain is
derived with whatever its last part is followed by. -/
def Category.Kept (input : Input) (starved : Int → Prop) (calls : Bool) :
    Category → Int → Node → Int → Prop
  | .atom, start, node, finish => Reads input starved .atom start [node] finish
  | .signed, start, node, finish => (calls = true → ¬ input.Merges finish) →
      Reads input starved (.signed calls) start [node] finish
  | .chain tier, start, node, finish => (calls = true → ¬ input.Merges finish) →
      ¬ input.Ahead tier.tighter finish → ∀ result last,
        Reads input starved (.rest tier calls node) finish [result] last →
          Reads input starved (.chain tier calls) start [result] last
  | _, _, _, _ => True

private theorem not_ahead_nil (position : Int) : ¬ input.Ahead [] position :=
  fun ⟨_, _, member⟩ => List.not_mem_nil member

private theorem Category.Kept.operand
    {tier : Tier} {calls : Bool}
    (kept : tier.operandCategory.Kept input starved calls start node finish)
    (alone : calls = true → ¬ input.Merges finish) (loose : ¬ input.Ahead tier.tighter finish) :
    Reads input starved (tier.operand calls) start [node] finish := by
  cases tier with
  | product => exact kept alone
  | sum => exact kept alone (not_ahead_nil finish) node finish (.noRest loose)

/-- Where a name does not merge with what follows, no atom follows it. -/
theorem CallFree.not_ahead_of_name
    {group : Int → Node → Int → Prop} (atom : CallFree input group .atom start node finish)
    (alone : ¬ input.Merges finish) (name : input.Ahead [.identifier] start) :
    ¬ input.Ahead atomStart (start + 1) := by
  cases atom with
  | leaf =>
      rw [← Int.add_sub_cancel start 1] at name
      exact fun argument => alone ⟨name, argument⟩
  | group opening => exact absurd name (opening.not_ahead (by decide))

theorem CallFree.reads_atom
    (atom : CallFree input (Groups input starved) .atom start node finish) :
    Reads input starved .atom start [node] finish := by
  cases atom with
  | leaf standing => exact .leafAtom standing
  | group _ group => exact .groupAtom group

/-- A single atom is a term unless it merges with what follows. -/
theorem CallFree.reads_term
    {calls : Bool} (atom : CallFree input (Groups input starved) .atom start node finish)
    (alone : calls = true → ¬ input.Merges finish) :
    Reads input starved (.term calls) start [node] finish :=
  .atomTerm atom.reads_atom fun recognised name => atom.not_ahead_of_name (alone recognised) name

theorem not_merges_of_at
    {tier : Tier} {operator : Token} (standing : input.At start tier.operators operator) :
    ¬ input.Merges start :=
  fun merges => standing.not_ahead (by cases tier <;> decide) merges.2

theorem CallFree.kept
    (callFree : CallFree input (Groups input starved) category start node finish) (calls : Bool) :
    category.Kept input starved calls start node finish := by
  induction callFree with
  | leaf standing => exact .leafAtom standing
  | group _ group => exact .groupAtom group
  | sign token _ operand => exact fun alone => .sign token (operand alone)
  | unsigned atom =>
      obtain ⟨token, standing⟩ := atom.ahead_atomStart
      exact fun alone => .unsigned (standing.not_ahead (by decide)) (atom.reads_term alone)
  | operand _ operand =>
      exact fun alone loose _ _ rest => .chain (operand.operand alone loose) rest
  | @joined tier _ _ _ _ _ _ _ operator _ left right =>
      -- The chain grows to the left but is derived from its first part on.
      intro alone loose result last rest
      refine left (fun _ => not_merges_of_at operator)
        (operator.not_ahead (by cases tier <;> decide)) result last ?_
      exact .moreRest operator (right.operand alone loose) rest

theorem not_ahead_operators
    (ends : ¬ input.Ahead binary start) (tier : Tier) :
    ¬ input.Ahead tier.operators start :=
  fun ahead => ends (ahead.mono (by cases tier <;> decide))

/-- A whole expression is read as it is where neither an operator nor an argument follows. -/
theorem CallFree.reads_expression
    {calls : Bool} (callFree : CallFree input (Groups input starved) .expression start node finish)
    (alone : calls = true → ¬ input.Merges finish)
    (ends : ¬ input.Ahead binary finish) :
    Reads input starved (.expression calls) start [node] finish :=
  callFree.kept calls alone (not_ahead_operators ends .product) node finish
    (.noRest (not_ahead_operators ends .sum))

end RomanScript.Grammar
