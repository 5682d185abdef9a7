import RomanScript.Proofs.Reading.Plan
import RomanScript.Proofs.Reading.Program

/-!
# What has begun is remembered

Wherever the body of a rule has begun, its result is remembered when the run is over. Only in
between is there a rule that has begun and is not remembered yet.
-/

namespace RomanScript.Grammar

open Reading

def Remembered.key (entry : Remembered) : Symbol × Int :=
  (entry.symbol, entry.start)

/-- What has begun between two states is what has been remembered meanwhile, as often as it has
begun. -/
def Accounts (before after : State) : Prop :=
  ∃ visited remembered, after.visits = visited ++ before.visits ∧
    after.memory = remembered ++ before.memory ∧ (remembered.map Remembered.key).Perm visited

namespace Accounts

theorem of_eq
    {before after : State} (visits : after.visits = before.visits)
    (memory : after.memory = before.memory) : Accounts before after :=
  ⟨[], [], visits, memory, .nil⟩

private theorem refl (state : State) : Accounts state state :=
  of_eq rfl rfl

theorem trans
    {first second third : State} (left : Accounts first second) (right : Accounts second third) :
    Accounts first third := by
  obtain ⟨visited, remembered, visits, memory, accounted⟩ := left
  obtain ⟨visited', remembered', visits', memory', accounted'⟩ := right
  refine ⟨visited' ++ visited, remembered' ++ remembered, ?_, ?_, ?_⟩
  · rw [visits', visits, List.append_assoc]
  · rw [memory', memory, List.append_assoc]
  · rw [List.map_append]
    exact accounted'.append accounted

/-- The rule that began last is remembered at the end of its body. -/
theorem remember
    {symbol : Symbol} {state after : State} (result : Except Diagnostic (Node × Int))
    (accounts : Accounts { state with visits := (symbol, state.position) :: state.visits } after) :
    Accounts state (after.remember state symbol result) := by
  obtain ⟨visited, remembered, visits, memory, accounted⟩ := accounts
  refine ⟨visited ++ [(symbol, state.position)], _ :: remembered, ?_, congrArg (_ :: ·) memory, ?_⟩
  · rw [List.append_assoc]
    exact visits
  · have last := accounted.cons (symbol, state.position)
    exact last.trans (List.perm_append_singleton _ visited).symm

end Accounts

def Completed {α : Type} (outcome : Except Failure α × State) : Prop :=
  ∀ misuse, outcome.1 ≠ .error (.misuse misuse)

theorem completed_ok {α : Type} (value : α) (s : State) : Completed (.ok value, s) := by
  intro misuse same
  cases same

theorem completed_diagnostic {α : Type} (diagnostic : Diagnostic) (s : State) :
    Completed ((.error (.diagnostic diagnostic), s) : Except Failure α × State) := by
  intro misuse same
  cases same

/-- If the reading is not misused, it accounts for all rules that have begun. -/
def Accounted (α : Type) (reading : Reading α) : Prop :=
  ∀ s, Completed (reading s) → Accounts s (reading s).2

variable {input : Input} {α β : Type}

private theorem accounted_bind
    {first : Reading α} {next : α → Reading β} (begun : Accounted α first)
    (continued : ∀ value, Accounted β (next value)) : Accounted β (first >>= next) := by
  intro s completed
  have early := begun s
  rw [bind_apply] at completed ⊢
  generalize first s = outcome at early completed ⊢
  rcases outcome with ⟨(diagnostic | misuse) | value, between⟩
  · exact early (completed_diagnostic diagnostic between)
  · exact absurd rfl (completed misuse)
  · exact (early (completed_ok value between)).trans (continued value between completed)

private theorem accounted_orElseAgain
    {first second : Reading α} (begun : Accounted α first) (again : Accounted α second) :
    Accounted α (Reading.orElseAgain first second) := by
  intro s completed
  have early := begun s
  unfold Reading.orElseAgain at completed ⊢
  generalize first s = outcome at early completed ⊢
  rcases outcome with ⟨(diagnostic | misuse) | value, between⟩
  · have late := again { between with position := s.position }
    have rewound : Accounts between { between with position := s.position } := .of_eq rfl rfl
    dsimp only [retry] at completed ⊢
    generalize second { between with position := s.position } = retried at late completed ⊢
    have begunAndBack := (early (completed_diagnostic diagnostic between)).trans rewound
    rcases retried with ⟨(other | misuse) | value, last⟩
    · exact begunAndBack.trans (late (completed_diagnostic other last))
    · exact absurd rfl (completed misuse)
    · exact begunAndBack.trans (late (completed_ok value last))
  · exact absurd rfl (completed misuse)
  · exact early (completed_ok value between)

private theorem accounted_nested
    {reading : Reading α} (inner : Accounted α reading) :
    Accounted α (Grammar.nested input reading) := by
  intro s completed
  by_cases crosses : input.Crosses s
  · cases ahead : input.tokenAt? s.position with
    | none =>
        rw [nested_of_crosses_none reading crosses ahead]
        exact .of_eq rfl rfl
    | some token =>
        rw [nested_of_crosses reading crosses ahead]
        exact .of_eq rfl rfl
  · rw [nested_of_not_crosses reading crosses] at completed ⊢
    exact inner s.deeper completed

private theorem accounted_remembering
    (symbol : Symbol) {body : Reading Node} (inner : Accounted Node body) :
    Accounted Node (Grammar.remembering input symbol (visit symbol >>= fun _ => body)) := by
  intro s completed
  unfold Grammar.remembering at completed ⊢
  split at completed
  · rename_i result _
    rcases result with _ | ⟨_, _⟩ <;> exact .of_eq rfl rfl
  · have accounts := inner { s with visits := (symbol, s.position) :: s.visits }
    rw [visit_bind] at completed ⊢
    generalize body { s with visits := (symbol, s.position) :: s.visits } = outcome
      at accounts completed ⊢
    rcases outcome with ⟨(diagnostic | misuse) | node, after⟩
    · exact (accounts (completed_diagnostic diagnostic after)).remember _
    · exact absurd rfl (completed misuse)
    · exact (accounts (completed_ok node after)).remember _

theorem closed_accounted (input : Input) : Closed input Accounted where
  pure value s _ := .refl s
  unending s _ := .refl s
  bind := accounted_bind
  withBudget inner s completed := inner _ s completed
  withCalls calls inner s completed := inner { s with calls := calls } completed
  orElseAgain := accounted_orElseAgain
  leaf s _ := by
    rw [leaf_apply]
    cases input.tokenAt? s.position with
    | none => exact .refl s
    | some token =>
        dsimp only [Input.advanced]
        split <;> exact .of_eq rfl rfl
  sees symbols s _ := by
    rw [sees_apply]
    cases input.tokenAt? s.position <;> exact .refl s
  seesCall s _ := by
    rw [seesCall_apply]
    split_ifs
    · cases input.tokenAt? s.position with
      | none => exact .refl s
      | some token =>
          dsimp only
          split_ifs
          · cases input.tokenAt? (s.position + 1) <;> exact .refl s
          · exact .refl s
    · exact .refl s
  refuse wanted s _ := by
    rw [refuse_apply]
    cases input.tokenAt? s.position <;> exact .refl s
  expressionRule symbol children s _ := by
    rw [expressionRule_apply]
    split <;> exact .of_eq rfl rfl
  nested := accounted_nested
  remembering := accounted_remembering

/-- Whatever rule has begun while a program was read is remembered. -/
theorem exists_entry_of_visit
    (terminated : input.Terminated) {visit : Symbol × Int}
    (visited : visit ∈ (program input State.start).2.visits) :
    ∃ entry ∈ (program input State.start).2.memory, (entry.symbol, entry.start) = visit := by
  obtain ⟨visits, remembered, areVisits, memory, accounted⟩ :=
    (closed_accounted input).program State.start (program_ne_misuse terminated Ready.start rfl rfl)
  rw [areVisits, State.start, List.append_nil] at visited
  obtain ⟨entry, isIn, same⟩ := List.mem_map.mp (accounted.mem_iff.mpr visited)
  exact ⟨entry, memory ▸ List.mem_append_left _ isIn, same⟩

end RomanScript.Grammar
