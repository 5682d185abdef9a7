import RomanScript.Proofs.Reading.Program
import RomanScript.Proofs.Reading.Repetition

/-!
# Remembered results

A run with memory beside the run without it. The run without memory logs every reading of a group or
a conditional, so its log tells which of them were read again, and whether levels were refused
meanwhile. As long as no level is refused when something is read again, and none was refused the
first time unless the result is the same, the memory goes unnoticed.
-/

namespace RomanScript.Grammar

open Reading

/-- The input without the look-up of remembered results. -/
def Input.forgetful (input : Input) : Input :=
  { input with settings := { input.settings with remembers := false } }

/-- If a rule is read again at a position, no level is refused; and none was refused the first time,
or the result is the same. -/
def Steady (later earlier : Remembered) : Prop :=
  later.symbol = earlier.symbol → later.start = earlier.start →
    later.refused = 0 ∧ (earlier.refused = 0 ∨ later.result = earlier.result)

/-- Where no level is refused, the log is steady. -/
theorem steady_of_unrefused
    {log : List Remembered} (unrefused : ∀ entry ∈ log, entry.refused = 0) :
    log.Pairwise Steady := by
  induction log with
  | nil => exact .nil
  | cons later log inductionHypothesis =>
      have rest := inductionHypothesis fun entry member => unrefused entry (.tail _ member)
      refine .cons (fun earlier member _ _ => ?_) rest
      exact ⟨unrefused later (.head _), .inl (unrefused earlier (.tail _ member))⟩

/-- Every remembered result was logged, and is settled if no level was refused. -/
def Logged (input : Input) (memory log : List Remembered) : Prop :=
  ∀ entry ∈ memory, entry ∈ log ∧
    (entry.refused = 0 → Settled input entry.symbol entry.start entry.result)

/-- A run with memory on the left and the run without it on the right, excused as soon as the log on
the right is not steady. -/
def recollection (input : Input) : Simulation input input.forgetful where
  nodes := Eq
  diagnostics := Eq
  states _ s t :=
    s.position = t.position ∧ s.calls = t.calls ∧ s.nesting = t.nesting ∧
      Logged input.forgetful s.memory t.memory
  excused _ _ t := ¬ t.memory.Pairwise Steady

variable {input : Input}

private theorem recollection_abreast : (recollection input).Abreast where
  tokens := rfl
  path := rfl
  position related := related.1
  moved _ related := ⟨rfl, related.2⟩
  leaf _ := rfl
  unexpected _ _ := rfl

private theorem recollection_lawful : (recollection input).Lawful where
  facing related ahead ahead' := .inl (recollection_abreast.sameToken related ahead ahead')
  following related _ behind behind' :=
    .inl (recollection_abreast.sameToken_behind related behind behind')
  advanced related _ _ _ _ := recollection_abreast.states_advanced related
  unexpected wanted related ahead ahead' :=
    recollection_abreast.diagnostics_unexpected wanted related ahead ahead'
  calls related := related.2.1
  withCalls _ related := ⟨related.1, rfl, related.2.2⟩
  visited _ related := related
  entered := by
    rintro depth s t ⟨position, calls, nesting, logged⟩ _ _
    exact ⟨position, calls, congrArg (· + 1) nesting, logged⟩
  shallower := by
    rintro depth s t ⟨position, calls, nesting, logged⟩
    exact ⟨position, calls, congrArg (· - 1) nesting, logged⟩
  refusedLeft := by
    rintro depth s t ⟨position, calls, nesting, logged⟩ ⟨limited, crosses⟩
    refine .inl ⟨⟨limited, nesting ▸ crosses⟩, ⟨s.position, t.position, position, calls,
      congrArg (· + 1) nesting, logged⟩, ?_⟩
    intro x y ahead ahead'
    rw [eq_of_same_tokens rfl position ahead ahead']
    rfl
  refusedRight := by
    rintro depth s t ⟨_, _, nesting, _⟩ ⟨limited, crosses⟩
    exact .inl ⟨limited, nesting ▸ crosses⟩
  placed := recollection_abreast.states_placed
  rule symbol _ _ same _ := congrArg (Node.rule symbol) (eq_of_pointwise same)
  expressionRule := by
    intro symbol children children' same _
    obtain rfl := eq_of_pointwise same
    exact .expressionRule Iff.rfl rfl rfl id
  excused_grows := by
    intro depth s s' t t' unsteady _ grown steady
    obtain ⟨added, memory, _⟩ := grown.memory
    rw [memory, List.pairwise_append] at steady
    exact unsteady steady.2.1
  excused_calls _ _ excuse := excuse
  excused_shallower excuse := excuse

private theorem Logged.mono
    {memory log log' : List Remembered} (logged : Logged input memory log)
    (more : ∀ entry ∈ log, entry ∈ log') : Logged input memory log' :=
  fun entry member => ⟨more entry (logged entry member).1, (logged entry member).2⟩

private theorem Logged.cons
    {memory log : List Remembered} (logged : Logged input memory log) {entry : Remembered}
    (settled : entry.refused = 0 → Settled input entry.symbol entry.start entry.result) :
    Logged input (entry :: memory) (entry :: log) := by
  intro other member
  rcases List.mem_cons.mp member with rfl | older
  · exact ⟨.head _, settled⟩
  · exact ⟨.tail _ (logged other older).1, (logged other older).2⟩

/-- What is recalled on the left is read again on the right, and a steady log tells that the result
is the same. -/
theorem recollection_recalled
    {symbol : Symbol} {levels : Nat} {depth : Int} {s t : State}
    (related : (recollection input).states depth s t)
    {entry : Remembered} (member : entry ∈ s.memory) (isSymbol : entry.symbol = symbol)
    (isStart : entry.start = s.position) :
    (recollection input).Outcome depth ((recollection input).Valued depth Eq)
      (recalled entry.result s)
      (recorded symbol t (bodyOf input.forgetful symbol levels t)) := by
  obtain ⟨position, calls, nesting, logged⟩ := related
  obtain ⟨inLog, settled⟩ := logged entry member
  have grown : Grows input.forgetful t (bodyOf input.forgetful symbol levels t).2 := Keeps.grows t
  have again : ∀ result', resultOf (bodyOf input.forgetful symbol levels t) = some result' →
      (bodyOf input.forgetful symbol levels t).2.nesting = t.nesting →
      entry.refused = 0 → result' = entry.result := by
    intro result' ended clean unrefused
    have settles := settled unrefused
    rw [isSymbol, isStart, position] at settles
    exact settles levels t result' rfl ended clean
  generalize bodyOf input.forgetful symbol levels t = outcome at grown again ⊢
  have inMemory := grown.mem_of_mem inLog
  have steadily : ∀ result', resultOf outcome = some result' →
      (outcome.2.remember t symbol result').memory.Pairwise Steady →
        outcome.2.nesting = t.nesting ∧ result' = entry.result := by
    intro result' ended steady
    have step := (List.pairwise_cons.mp steady).1 entry inMemory isSymbol.symm
      (by rw [isStart, position])
    dsimp only at step
    have clean : outcome.2.nesting = t.nesting := by omega
    exact ⟨clean, step.2.elim (again result' ended clean) id⟩
  have later : ∀ new, Logged input.forgetful s.memory (new :: outcome.2.memory) := fun new =>
    logged.mono fun other older => .tail _ (grown.mem_of_mem older)
  rcases outcome with ⟨(diagnostic | misuse) | node, after⟩
  · by_cases steady : (after.remember t symbol (.error diagnostic)).memory.Pairwise Steady
    · obtain ⟨clean, same⟩ := steadily _ rfl steady
      rw [← same]
      exact .diagnostic rfl ⟨s.position, t.position, position, calls.trans grown.calls.symm,
        nesting.trans clean.symm, later _⟩
    · exact .excused steady
  · exact .rightMisuse
  · by_cases steady : (after.remember t symbol (.ok (node, after.position))).memory.Pairwise Steady
    · obtain ⟨clean, same⟩ := steadily _ rfl steady
      rw [← same]
      exact .value ⟨rfl, rfl, calls.trans grown.calls.symm, nesting.trans clean.symm, later _⟩
    · exact .excused steady

/-- What is read on both sides is remembered on the left as it is logged on the right. -/
theorem recollection_recorded
    {symbol : Symbol} {levels : Nat} {depth : Int} {s t : State}
    (related : (recollection input).states depth s t)
    (ahead : input.forgetful.Ahead (openers symbol) t.position)
    {outcome : Except Failure Node × State}
    (ended : (recollection input).Outcome depth ((recollection input).Valued depth Eq) outcome
      (bodyOf input.forgetful symbol levels t)) :
    (recollection input).Outcome depth ((recollection input).Valued depth Eq)
      (recorded symbol s outcome)
      (recorded symbol t (bodyOf input.forgetful symbol levels t)) := by
  have settles : ∀ result, resultOf (bodyOf input.forgetful symbol levels t) = some result →
      (bodyOf input.forgetful symbol levels t).2.nesting = t.nesting →
      Settled input.forgetful symbol t.position result := by
    intro result ended clean
    exact settled_of_clean rfl ahead ended clean
  obtain ⟨position, calls, nesting, logged⟩ := related
  generalize bodyOf input.forgetful symbol levels t = outcome' at ended settles ⊢
  refine ended.recorded ?_ ?_ ?_
  · rintro node _ s' t' rfl rfl ⟨position', calls', nesting', logged'⟩
    have same : (⟨symbol, s.position, .ok (node, s'.position), s'.nesting - s.nesting⟩ :
        Remembered) = ⟨symbol, t.position, .ok (node, t'.position), t'.nesting - t.nesting⟩ := by
      rw [position, position', nesting, nesting']
    refine ⟨position', calls', nesting', ?_⟩
    dsimp only [State.remember]
    rw [same]
    exact logged'.cons fun clean => settles _ rfl (by dsimp only at clean ⊢; omega)
  · rintro diagnostic _ s' t' rfl rfl ⟨place, place', samePlace, calls', nesting', logged'⟩
    dsimp only at nesting'
    have same : (⟨symbol, s.position, .error diagnostic, s'.nesting - s.nesting⟩ :
        Remembered) = ⟨symbol, t.position, .error diagnostic, t'.nesting - t.nesting⟩ := by
      rw [position, nesting, nesting']
    refine ⟨place, place', samePlace, calls', nesting', ?_⟩
    dsimp only [State.remember]
    rw [same]
    exact logged'.cons fun clean => settles _ rfl (by dsimp only at clean ⊢; omega)
  · intro unsteady steady
    refine unsteady ?_
    rcases outcome' with ⟨(diagnostic | misuse) | node, after⟩
    · exact steady.of_cons
    · exact steady
    · exact steady.of_cons

private theorem recollection_remembering
    (symbol : Symbol) (levels levels' : Nat)
    (follows : (recollection input).FollowsAt (openers symbol) (bodyOf input symbol levels)
      (bodyOf input.forgetful symbol levels') Eq) :
    (recollection input).FollowsAt (openers symbol)
      (remembering input symbol (bodyOf input symbol levels))
      (remembering input.forgetful symbol (bodyOf input.forgetful symbol levels')) Eq := by
  intro depth s t related ahead
  rw [remembering_off (rfl : input.forgetful.settings.remembers = false)]
  unfold remembering
  split
  · rename_i result recalls
    obtain ⟨_, entry, member, isSymbol, isStart, rfl⟩ := exists_entry_of_recall recalls
    exact recollection_recalled related member isSymbol isStart
  · refine recollection_recorded related (related.1 ▸ ahead) ?_
    exact follows depth s t related ahead

private theorem recollection_remembers : (recollection input).Remembers where
  group levels levels' follows := recollection_remembering .group levels levels' follows
  conditional levels levels' follows :=
    recollection_remembering .conditional levels levels' follows

/-- With a steady log, memory goes unnoticed. -/
theorem program_eq_forgetful
    (terminated : input.Terminated)
    (steady : (program input.forgetful State.start).2.memory.Pairwise Steady) :
    (program input State.start).1 = (program input.forgetful State.start).1 := by
  have left := program_ne_misuse terminated Ready.start rfl rfl
  have terminatedForgetful : input.forgetful.Terminated := terminated
  have right := program_ne_misuse terminatedForgetful Ready.start rfl rfl
  have related : (recollection input).states 0 State.start State.start :=
    ⟨rfl, rfl, rfl, fun _ member => absurd member List.not_mem_nil⟩
  have beside := Simulation.follows_programWithin recollection_lawful recollection_remembers
    (fun _ _ _ _ _ => recollection_abreast.sameToken)
    (input.budget State.start) (input.forgetful.budget State.start) related
  rw [← program_apply, ← program_apply] at beside
  generalize program input State.start = outcome at left beside ⊢
  generalize program input.forgetful State.start = outcome' at right beside steady ⊢
  cases beside with
  | leftMisuse => exact absurd rfl (left _)
  | rightMisuse => exact absurd rfl (right _)
  | excused unsteady => exact absurd steady unsteady
  | value same => exact congrArg Except.ok same
  | diagnostic same _ =>
      cases same
      rfl

end RomanScript.Grammar

namespace RomanScript.Tree

open Grammar

/-- Without memory the same tree is read, or the same diagnostic is given, as long as the log of the
run without memory is steady. -/
theorem ofTokens_eq_forgetful
    (tokens : List Token) (path : Option String)
    (steady : (program ⟨tokens.toArray, path, ⟨false, true⟩⟩ State.start).2.memory.Pairwise
      Steady) :
    ofTokens tokens path = ofTokensUnder ⟨false, true⟩ tokens path := by
  by_cases finished : (tokens.getLast?.map (·.symbol)) = some .endOfText
  · have same := program_eq_forgetful (terminated_of_getLast? finished path .full) steady
    unfold ofTokens
    rw [ofTokensUnder_of_finished finished, ofTokensUnder_of_finished finished, same]
    rfl
  · unfold ofTokens ofTokensUnder
    rw [if_neg finished, if_neg finished]

/-- An operand of a conditional that is read again in parentheses. -/
def repeatedGroup : List Token :=
  Token.row [(.keyword .output, "Grafo"), (.keyword .choose, "Sinon"), (.identifier, "x"),
    (.openParen, "("), (.numeral, "I"), (.closeParen, ")"), (.identifier, "y"), (.endOfText, "")]

theorem ofTokens_eq_forgetful_repeatedGroup :
    (program ⟨repeatedGroup.toArray, none, ⟨false, true⟩⟩ State.start).2.memory.Pairwise Steady ∧
      ofTokens repeatedGroup none = ofTokensUnder ⟨false, true⟩ repeatedGroup none := by
  have steady : (program ⟨repeatedGroup.toArray, none, ⟨false, true⟩⟩
      State.start).2.memory.Pairwise Steady :=
    steady_of_unrefused (by decide +kernel)
  exact ⟨steady, ofTokens_eq_forgetful repeatedGroup none steady⟩

/-- A conditional whose second operand is a sum of many signs before a call of `x`. The argument in
parentheses is refused beneath the signs, and is remembered as refused when it is to be read as the
third operand. -/
def refusedArgument : List Token :=
  Token.row ([(.keyword .output, "Grafo"), (.keyword .choose, "Sinon"), (.identifier, "x"),
      (.numeral, "I"), (.plus, "+")] ++ List.replicate 61 (.plus, "+") ++
    [(.identifier, "x"), (.openParen, "("), (.openParen, "("), (.numeral, "I"),
      (.closeParen, ")"), (.closeParen, ")"), (.endOfText, "")])

theorem ofTokens_ne_forgetful_refusedArgument :
    ofTokens refusedArgument none ≠ ofTokensUnder ⟨false, true⟩ refusedArgument none := by
  intro same
  have agree := congrArg Except.isOk same
  revert agree
  decide +kernel

end RomanScript.Tree
