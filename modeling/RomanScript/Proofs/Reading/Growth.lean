import RomanScript.Proofs.Reading.Equations

/-!
# What every reading keeps

A reading leaves the state as it found it, apart from its position and its records: whether calls
are recognised is restored, no level is given back that was not taken, and remembered results are
only added. Where the limits are switched off, no level is refused either.

`Keeps` is a class, so that the fact is found for a composed reading from its parts.
-/

namespace RomanScript.Grammar

open Reading

/-- The state `after` is one that a reading may leave when it begins in `before`. -/
structure Grows (input : Input) (before after : State) : Prop where
  calls : after.calls = before.calls
  nesting : before.nesting ≤ after.nesting
  unlimited : input.settings.limited = false → after.nesting = before.nesting
  refusals : before.refusals ≤ after.refusals
  memory : ∃ added, after.memory = added ++ before.memory ∧
    (input.settings.limited = false → ∀ entry ∈ added, entry.refused = 0)

namespace Grows

variable {input : Input} {first second third : State}

/-- A change of the position and of the records alone. -/
theorem of_eq
    (calls : second.calls = first.calls)
    (nesting : second.nesting = first.nesting)
    (refusals : first.refusals ≤ second.refusals)
    (memory : second.memory = first.memory) :
    Grows input first second where
  calls := calls
  nesting := Int.le_of_eq nesting.symm
  unlimited := fun _ => nesting
  refusals := refusals
  memory := ⟨[], by simpa using memory, by simp⟩

theorem refl (state : State) : Grows input state state :=
  of_eq rfl rfl (Nat.le_refl _) rfl

theorem trans
    (left : Grows input first second)
    (right : Grows input second third) :
    Grows input first third := by
  obtain ⟨earlier, earlierMemory, earlierClean⟩ := left.memory
  obtain ⟨later, laterMemory, laterClean⟩ := right.memory
  refine ⟨right.calls.trans left.calls, Int.le_trans left.nesting right.nesting, ?_,
    Nat.le_trans left.refusals right.refusals, later ++ earlier, ?_, ?_⟩
  · intro unlimited
    exact (right.unlimited unlimited).trans (left.unlimited unlimited)
  · rw [laterMemory, earlierMemory, List.append_assoc]
  · intro unlimited entry member
    rcases List.mem_append.mp member with inLater | inEarlier
    · exact laterClean unlimited entry inLater
    · exact earlierClean unlimited entry inEarlier

theorem mem_of_mem
    (grown : Grows input first second)
    {entry : Remembered} (member : entry ∈ first.memory) :
    entry ∈ second.memory := by
  obtain ⟨added, memory, _⟩ := grown.memory
  rw [memory]
  exact List.mem_append_right added member

end Grows

/-- From any state, the reading leaves one that has only grown. -/
class Keeps (input : Input) {α : Type} (reading : Reading α) : Prop where
  grows : ∀ state, Grows input state (reading state).2

namespace Keeps

variable {input : Input} {α β : Type}

instance pure (value : α) : Keeps input (Pure.pure value : Reading α) where
  grows := Grows.refl

instance fail (failure : Failure) : Keeps input (Reading.fail failure : Reading α) where
  grows := Grows.refl

instance bind
    (first : Reading α) (next : α → Reading β)
    [Keeps input first] [∀ value, Keeps input (next value)] :
    Keeps input (first >>= next) where
  grows state := by
    have grown : Grows input state (first state).2 := Keeps.grows state
    rw [bind_apply]
    generalize first state = outcome at grown ⊢
    rcases outcome with ⟨failure | value, after⟩
    · exact grown
    · exact grown.trans (Keeps.grows after)

instance ite
    (condition : Prop) [Decidable condition] (first second : Reading α)
    [Keeps input first] [Keeps input second] :
    Keeps input (if condition then first else second) := by
  split <;> infer_instance

instance state : Keeps input Reading.state where
  grows := Grows.refl

instance withBudget
    (repetition : Nat → Reading α) [∀ steps, Keeps input (repetition steps)] :
    Keeps input (Reading.withBudget input repetition) where
  grows state := (inferInstance : Keeps input (repetition (input.budget state))).grows state

instance withCalls
    (calls : Bool) (reading : Reading α) [Keeps input reading] :
    Keeps input (Reading.withCalls calls reading) where
  grows state := by
    have grown : Grows input { state with calls := calls }
        (reading { state with calls := calls }).2 :=
      Keeps.grows _
    exact ⟨rfl, grown.nesting, grown.unlimited, grown.refusals, grown.memory⟩

theorem grows_retry
    (second : Reading α) [Keeps input second] (position : Int)
    (outcome : Except Failure α × State) :
    Grows input outcome.2 (retry second position outcome).2 := by
  rcases outcome with ⟨(diagnostic | misuse) | value, after⟩
  · have rewound : Grows input after { after with position := position } :=
      .of_eq rfl rfl (Nat.le_refl _) rfl
    have again : Grows input after (second { after with position := position }).2 :=
      rewound.trans (Keeps.grows _)
    dsimp only [retry]
    generalize second { after with position := position } = retried at again ⊢
    rcases retried with ⟨(_ | _) | _, last⟩ <;> exact again
  · exact Grows.refl after
  · exact Grows.refl after

instance orElseAgain
    (first second : Reading α) [Keeps input first] [Keeps input second] :
    Keeps input (Reading.orElseAgain first second) where
  grows state := (Keeps.grows state).trans (grows_retry second state.position (first state))

instance peek (offset : Int) : Keeps input (Grammar.peek input offset) where
  grows state := by
    unfold Grammar.peek
    split <;> exact Grows.refl state

instance advance : Keeps input (Grammar.advance input) where
  grows state := by
    rw [advance_apply]
    cases input.tokenAt? state.position with
    | none => exact Grows.refl state
    | some token =>
        dsimp only [Input.advanced]
        split
        · exact .of_eq rfl rfl (Nat.le_refl _) rfl
        · exact Grows.refl state

instance sees (symbols : List Symbol) : Keeps input (Grammar.sees input symbols) := by
  unfold Grammar.sees
  infer_instance

instance refuse (wanted : String) : Keeps input (Grammar.refuse input wanted : Reading α) := by
  unfold Grammar.refuse Grammar.unexpected
  infer_instance

instance leaf : Keeps input (Grammar.leaf input) := by
  unfold Grammar.leaf
  infer_instance

instance expect (symbol : Symbol) : Keeps input (Grammar.expect input symbol) := by
  unfold Grammar.expect
  infer_instance

instance refuseLimit (limit : Nat) (line column : Int) :
    Keeps input (Grammar.refuseLimit input limit line column : Reading α) where
  grows _ := .of_eq rfl rfl (Nat.le_succ _) rfl

instance expressionRule (symbol : Symbol) (children : List Node) :
    Keeps input (Grammar.expressionRule input symbol children) := by
  unfold Grammar.expressionRule
  dsimp only
  split
  · infer_instance
  · exact Keeps.pure _

private theorem grows_deeper
    {state : State} (refusals : Nat) (limited : input.settings.limited = true)
    (more : state.refusals ≤ refusals) :
    Grows input state { state.deeper with refusals := refusals } where
  calls := rfl
  nesting := Int.le_add_one (Int.le_refl _)
  unlimited := by simp [limited]
  refusals := more
  memory := ⟨[], rfl, by simp⟩

/-- A level that is refused stays counted; any other is given back. -/
instance nested (reading : Reading α) [Keeps input reading] :
    Keeps input (Grammar.nested input reading) where
  grows state := by
    by_cases crosses : input.Crosses state
    · cases ahead : input.tokenAt? state.position with
      | none =>
          rw [nested_of_crosses_none reading crosses ahead]
          exact grows_deeper _ crosses.1 (Nat.le_refl _)
      | some token =>
          rw [nested_of_crosses reading crosses ahead]
          exact grows_deeper _ crosses.1 (Nat.le_succ _)
    · rw [nested_of_not_crosses reading crosses]
      have grown : Grows input state.deeper (reading state.deeper).2 := Keeps.grows _
      have deeper : state.deeper.nesting = state.nesting + 1 := rfl
      have nesting := grown.nesting
      refine ⟨grown.calls, ?_, ?_, grown.refusals, grown.memory⟩
      · dsimp only [State.shallower]
        omega
      · intro unlimited
        have := grown.unlimited unlimited
        dsimp only [State.shallower]
        omega

private theorem grows_remember
    {before after : State} (symbol : Symbol) (result : Except Diagnostic (Node × Int))
    (grown : Grows input before after) :
    Grows input before (after.remember before symbol result) := by
  obtain ⟨added, memory, clean⟩ := grown.memory
  refine ⟨grown.calls, grown.nesting, grown.unlimited, grown.refusals, _ :: added,
    congrArg (List.cons _) memory, ?_⟩
  intro unlimited entry member
  rcases List.mem_cons.mp member with rfl | inAdded
  · have := grown.unlimited unlimited
    dsimp only
    omega
  · exact clean unlimited entry inAdded

private theorem grows_recorded
    {before : State} (symbol : Symbol) {outcome : Except Failure Node × State}
    (grown : Grows input before outcome.2) :
    Grows input before (recorded symbol before outcome).2 := by
  rcases outcome with ⟨(diagnostic | misuse) | node, after⟩
  · exact grows_remember symbol _ grown
  · exact grown
  · exact grows_remember symbol _ grown

/-- A body that is read leaves one entry more; where no level is refused, the entry says so. -/
instance remembering (symbol : Symbol) (body : Reading Node) [Keeps input body] :
    Keeps input (Grammar.remembering input symbol body) where
  grows state := by
    unfold Grammar.remembering
    split
    · rename_i result _
      rcases result with diagnostic | ⟨node, finish⟩
      · exact Grows.refl state
      · exact .of_eq rfl rfl (Nat.le_refl _) rfl
    · exact grows_recorded symbol (Keeps.grows _)

instance visit (symbol : Symbol) : Keeps input (Grammar.visit symbol) where
  grows _ := .of_eq rfl rfl (Nat.le_refl _) rfl

section Expressions

variable (expression : Reading Node) [Keeps input expression]

instance group : Keeps input (Grammar.group input expression) := by
  unfold Grammar.group
  infer_instance

instance atom : Keeps input (Grammar.atom input expression) := by
  unfold Grammar.atom
  infer_instance

instance atoms (steps : Nat) : Keeps input (Grammar.atoms input expression steps) := by
  induction steps with
  | zero => exact Keeps.fail _
  | succ steps inductionHypothesis =>
      unfold Grammar.atoms
      infer_instance

instance operands (calls : Bool) : Keeps input (Grammar.operands expression calls) := by
  unfold Grammar.operands
  infer_instance

instance conditional : Keeps input (Grammar.conditional input expression) := by
  unfold Grammar.conditional
  infer_instance

instance seesCall : Keeps input (Grammar.seesCall input) := by
  unfold Grammar.seesCall
  infer_instance

instance call : Keeps input (Grammar.call input expression) := by
  unfold Grammar.call
  infer_instance

instance term : Keeps input (Grammar.term input expression) := by
  unfold Grammar.term
  infer_instance

instance signedWithin (steps : Nat) :
    Keeps input (Grammar.signedWithin input expression steps) := by
  induction steps with
  | zero => exact Keeps.fail _
  | succ steps inductionHypothesis =>
      unfold Grammar.signedWithin
      infer_instance

instance signed : Keeps input (Grammar.signed input expression) := by
  unfold Grammar.signed
  infer_instance

instance chainWithin
    (symbol : Symbol) (operators : List Symbol) (operand : Reading Node) [Keeps input operand]
    (steps : Nat) (left : Node) :
    Keeps input (Grammar.chainWithin input symbol operators operand steps left) := by
  induction steps generalizing left with
  | zero => exact Keeps.fail _
  | succ steps inductionHypothesis =>
      unfold Grammar.chainWithin
      infer_instance

instance chain
    (symbol : Symbol) (operators : List Symbol) (operand : Reading Node) [Keeps input operand] :
    Keeps input (Grammar.chain input symbol operators operand) := by
  unfold Grammar.chain
  infer_instance

instance product : Keeps input (Grammar.product input expression) := by
  unfold Grammar.product
  infer_instance

instance sum : Keeps input (Grammar.sum input expression) := by
  unfold Grammar.sum
  infer_instance

end Expressions

instance expressionWithin (levels : Nat) : Keeps input (Grammar.expressionWithin input levels) := by
  induction levels with
  | zero => exact Keeps.fail _
  | succ levels inductionHypothesis =>
      exact Keeps.nested (Grammar.sum input (Grammar.expressionWithin input levels))

instance wholeExpression : Keeps input (Grammar.wholeExpression input) := by
  unfold Grammar.wholeExpression
  infer_instance

instance namesWithin (steps : Nat) : Keeps input (Grammar.namesWithin input steps) := by
  induction steps with
  | zero => exact Keeps.fail _
  | succ steps inductionHypothesis =>
      unfold Grammar.namesWithin
      infer_instance

instance functionDef : Keeps input (Grammar.functionDef input) := by
  unfold Grammar.functionDef
  infer_instance

instance variableDecl : Keeps input (Grammar.variableDecl input) := by
  unfold Grammar.variableDecl
  infer_instance

instance outputStmt : Keeps input (Grammar.outputStmt input) := by
  unfold Grammar.outputStmt
  infer_instance

instance statementFor (symbol : Symbol) : Keeps input (Grammar.statementFor input symbol) := by
  unfold Grammar.statementFor
  infer_instance

instance statement : Keeps input (Grammar.statement input) := by
  unfold Grammar.statement
  infer_instance

instance statementsWithin (steps : Nat) : Keeps input (Grammar.statementsWithin input steps) := by
  induction steps with
  | zero => exact Keeps.fail _
  | succ steps inductionHypothesis =>
      unfold Grammar.statementsWithin
      infer_instance

instance program : Keeps input (Grammar.program input) := by
  unfold Grammar.program
  infer_instance

end Keeps

end RomanScript.Grammar
