import RomanScript.Proofs.Reading.Memory

/-!
# Runs in which no limit is crossed

As long as no limit is crossed, a run does what a run without limits and without memory does. So
whatever it remembers is what the rules give without them, at whatever depth.
-/

namespace RomanScript.Grammar

open Reading

/-- The input without limits and without the look-up of remembered results. -/
def Input.free (input : Input) : Input :=
  { input with settings := ⟨false, false⟩ }

def Settles (input : Input) (memory : List Remembered) : Prop :=
  ∀ entry ∈ memory, Settled input entry.symbol entry.start entry.result

/-- A run on the left and the run without limits and memory on the right, excused as soon as more
limits have been crossed than `refusals`. -/
def liberation (input : Input) (refusals : Nat) : Simulation input input.free where
  nodes := Eq
  diagnostics := Eq
  states _ s t :=
    s.position = t.position ∧ s.calls = t.calls ∧ refusals ≤ s.refusals ∧
      Settles input.free s.memory
  excused _ s _ := refusals < s.refusals

variable {input : Input} {refusals : Nat}

private theorem not_crosses_free (s : State) : ¬ input.free.Crosses s :=
  fun crosses => Bool.false_ne_true crosses.1

private theorem not_exceeds_free (node : Node) : ¬ input.free.Exceeds node :=
  fun exceeds => Bool.false_ne_true exceeds.1

private theorem liberation_abreast : (liberation input refusals).Abreast where
  tokens := rfl
  path := rfl
  position related := related.1
  moved _ related := ⟨rfl, related.2⟩
  leaf _ := rfl
  unexpected _ _ := rfl

theorem liberation_lawful : (liberation input refusals).Lawful where
  facing related ahead ahead' := .inl (liberation_abreast.sameToken related ahead ahead')
  following related _ behind behind' :=
    .inl (liberation_abreast.sameToken_behind related behind behind')
  advanced related _ _ _ _ := liberation_abreast.states_advanced related
  unexpected wanted related ahead ahead' :=
    liberation_abreast.diagnostics_unexpected wanted related ahead ahead'
  calls related := related.2.1
  withCalls _ related := ⟨related.1, rfl, related.2.2⟩
  visited _ related := related
  entered related _ _ := related
  shallower related := related
  refusedLeft := by
    rintro depth s t ⟨_, _, atLeast, _⟩ _
    exact .inr fun _ _ => Nat.lt_succ_of_le atLeast
  refusedRight _ crosses := absurd crosses (not_crosses_free _)
  placed := liberation_abreast.states_placed
  rule symbol _ _ same _ := congrArg (Node.rule symbol) (eq_of_pointwise same)
  expressionRule := by
    intro symbol children children' same _ depth s t related
    rw [← eq_of_pointwise same, expressionRule_apply, expressionRule_apply,
      if_neg (not_exceeds_free _)]
    split
    · exact .excused (Nat.lt_succ_of_le related.2.2.1)
    · exact .value ⟨rfl, related⟩
  excused_grows excuse grown _ := Nat.lt_of_lt_of_le excuse grown.refusals
  excused_calls _ _ excuse := excuse
  excused_shallower excuse := excuse

private theorem Settles.cons
    {memory : List Remembered} (settles : Settles input memory) {entry : Remembered}
    (settled : Settled input entry.symbol entry.start entry.result) :
    Settles input (entry :: memory) :=
  List.forall_mem_cons.mpr ⟨settled, settles⟩

/-- What the body of a rule gives on the right is what its rule has there. -/
theorem settled_of_resultOf
    {symbol : Symbol} {levels : Nat} {t : State} {result : Except Diagnostic (Node × Int)}
    (ahead : input.free.Ahead (openers symbol) t.position)
    (ended : resultOf (bodyOf input.free symbol levels t) = some result) :
    Settled input.free symbol t.position result := by
  have grown : Grows input.free t (bodyOf input.free symbol levels t).2 := Keeps.grows t
  exact settled_of_clean rfl ahead ended (grown.unlimited rfl)

/-- What is recalled on the left is read again on the right, with the same result. -/
theorem liberation_recalled
    {symbol : Symbol} {levels : Nat} {depth : Int} {s t : State}
    (related : (liberation input refusals).states depth s t)
    {result : Except Diagnostic (Node × Int)}
    (settled : Settled input.free symbol s.position result) :
    (liberation input refusals).Outcome depth ((liberation input refusals).Valued depth Eq)
      (recalled result s)
      (recorded symbol t (bodyOf input.free symbol levels t)) := by
  obtain ⟨position, calls, atLeast, settles⟩ := related
  have grown : Grows input.free t (bodyOf input.free symbol levels t).2 := Keeps.grows t
  have again : ∀ result', resultOf (bodyOf input.free symbol levels t) = some result' →
      result' = result :=
    fun result' ended => settled levels t result' position.symm ended (grown.unlimited rfl)
  have sameCalls := calls.trans grown.calls.symm
  generalize bodyOf input.free symbol levels t = outcome at again sameCalls ⊢
  rcases outcome with ⟨(diagnostic | misuse) | node, after⟩
  · rw [← again _ rfl]
    exact .diagnostic rfl ⟨s.position, t.position, position, sameCalls, atLeast, settles⟩
  · exact .rightMisuse
  · rw [← again _ rfl]
    exact .value ⟨rfl, rfl, sameCalls, atLeast, settles⟩

/-- What is read on both sides is remembered on the left as its rule has it. -/
theorem liberation_recorded
    {symbol : Symbol} {levels : Nat} {depth : Int} {s t : State}
    (related : (liberation input refusals).states depth s t)
    (ahead : input.free.Ahead (openers symbol) t.position) {outcome : Except Failure Node × State}
    (ended : (liberation input refusals).Outcome depth
      ((liberation input refusals).Valued depth Eq) outcome (bodyOf input.free symbol levels t)) :
    (liberation input refusals).Outcome depth ((liberation input refusals).Valued depth Eq)
      (recorded symbol s outcome)
      (recorded symbol t (bodyOf input.free symbol levels t)) := by
  have settled : ∀ result, resultOf (bodyOf input.free symbol levels t) = some result →
      Settled input.free symbol s.position result := by
    intro result isResult
    rw [related.1]
    exact settled_of_resultOf ahead isResult
  generalize bodyOf input.free symbol levels t = outcome' at ended settled ⊢
  refine ended.recorded ?_ ?_ ?_
  · rintro node _ s' t' rfl rfl ⟨position, calls, atLeast, settles⟩
    refine ⟨position, calls, atLeast, settles.cons ?_⟩
    dsimp only
    rw [position]
    exact settled _ rfl
  · rintro diagnostic _ s' t' rfl rfl ⟨place, place', position, calls, atLeast, settles⟩
    exact ⟨place, place', position, calls, atLeast, settles.cons (settled _ rfl)⟩
  · intro excuse
    rcases outcome with ⟨(_ | _) | _, _⟩ <;> exact excuse

private theorem liberation_remembering
    (symbol : Symbol) (levels levels' : Nat)
    (follows : (liberation input refusals).FollowsAt (openers symbol) (bodyOf input symbol levels)
      (bodyOf input.free symbol levels') Eq) :
    (liberation input refusals).FollowsAt (openers symbol)
      (remembering input symbol (bodyOf input symbol levels))
      (remembering input.free symbol (bodyOf input.free symbol levels')) Eq := by
  intro depth s t related ahead
  rw [remembering_off (rfl : input.free.settings.remembers = false)]
  unfold remembering
  split
  · rename_i result recalls
    obtain ⟨_, entry, member, isSymbol, isStart, rfl⟩ := exists_entry_of_recall recalls
    have settled := related.2.2.2 entry member
    rw [isSymbol, isStart] at settled
    exact liberation_recalled related settled
  · refine liberation_recorded related (related.1 ▸ ahead) ?_
    exact follows depth s t related ahead

theorem liberation_remembers : (liberation input refusals).Remembers where
  group levels levels' follows := liberation_remembering .group levels levels' follows
  conditional levels levels' follows :=
    liberation_remembering .conditional levels levels' follows

/-- What a program remembers is what its statements have left. -/
theorem program_snd
    (s : State) :
    (program input s).2.memory = (statementsWithin input (input.budget s) s).2.memory ∧
      (program input s).2.refusals = (statementsWithin input (input.budget s) s).2.refusals := by
  rw [program_apply, programWithin, bind_apply]
  generalize statementsWithin input (input.budget s) s = outcome
  rcases outcome with ⟨failure | statements, after⟩
  · exact ⟨rfl, rfl⟩
  · dsimp only
    rw [bind_apply, leaf_apply]
    cases input.tokenAt? after.position with
    | none => exact ⟨rfl, rfl⟩
    | some token =>
        dsimp only [Input.advanced]
        split <;> exact ⟨rfl, rfl⟩

/-- If no limit is crossed while a program is read, every result that is remembered is what its rule
has without limits. -/
theorem settles_program
    (terminated : input.Terminated) (unrefused : (program input State.start).2.refusals = 0) :
    Settles input.free (program input State.start).2.memory := by
  have complete : ∀ input' : Input, input'.Terminated → ∀ misuse : Misuse,
      (statementsWithin input' (input'.budget State.start) State.start).1 ≠
        .error (.misuse misuse) := by
    intro input' terminated' misuse failed
    refine program_ne_misuse terminated' Ready.start rfl rfl misuse ?_
    rw [program_apply, programWithin, bind_apply]
    generalize statementsWithin input' (input'.budget State.start) State.start = outcome at failed ⊢
    obtain ⟨result, after⟩ := outcome
    cases failed
    rfl
  have left := complete input terminated
  have right := complete input.free terminated
  have related : (liberation input 0).states 0 State.start State.start :=
    ⟨rfl, rfl, Nat.zero_le _, List.forall_mem_nil _⟩
  have lawful : (liberation input 0).Lawful := liberation_lawful
  have beside := Simulation.follows_statementsWithin lawful liberation_remembers
    (fun _ _ _ _ _ => liberation_abreast.sameToken)
    (input.budget State.start) (input.free.budget State.start) 0 State.start State.start related
  rw [(program_snd State.start).2] at unrefused
  rw [(program_snd State.start).1]
  generalize statementsWithin input (input.budget State.start) State.start = outcome
    at left beside unrefused ⊢
  generalize statementsWithin input.free (input.free.budget State.start) State.start = outcome'
    at right beside
  cases beside with
  | leftMisuse => exact absurd rfl (left _)
  | rightMisuse => exact absurd rfl (right _)
  | excused excuse => exact absurd unrefused (Nat.ne_of_gt excuse)
  | value valued => exact valued.2.2.2.2
  | diagnostic _ unplaced =>
      obtain ⟨_, _, _, _, _, settles⟩ := unplaced
      exact settles

/-- If no limit is crossed while a program is read, neither limits nor memory are noticed. -/
theorem program_eq_free_of_unrefused
    (terminated : input.Terminated) (unrefused : (program input State.start).2.refusals = 0) :
    (program input State.start).1 = (program input.free State.start).1 := by
  have left := program_ne_misuse terminated Ready.start rfl rfl
  have terminatedFree : input.free.Terminated := terminated
  have right := program_ne_misuse terminatedFree Ready.start rfl rfl
  have related : (liberation input 0).states 0 State.start State.start :=
    ⟨rfl, rfl, Nat.zero_le _, List.forall_mem_nil _⟩
  have lawful : (liberation input 0).Lawful := liberation_lawful
  have beside := Simulation.follows_programWithin lawful liberation_remembers
    (fun _ _ _ _ _ => liberation_abreast.sameToken)
    (input.budget State.start) (input.free.budget State.start) related
  rw [← program_apply, ← program_apply] at beside
  generalize program input State.start = outcome at left beside unrefused ⊢
  generalize program input.free State.start = outcome' at right beside ⊢
  cases beside with
  | leftMisuse => exact absurd rfl (left _)
  | rightMisuse => exact absurd rfl (right _)
  | excused excuse => exact absurd unrefused (Nat.ne_of_gt excuse)
  | value same => exact congrArg Except.ok same
  | diagnostic same _ =>
      cases same
      rfl

end RomanScript.Grammar
