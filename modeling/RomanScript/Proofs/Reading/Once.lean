import Mathlib.Data.List.Nodup
import RomanScript.Proofs.Reading.Memory
import RomanScript.Proofs.Reading.Progress
import RomanScript.Proofs.Reading.Visits

/-!
# Nothing is read twice

The body of a remembered rule begins at most once at every position. While a body runs, all that it
reads lies behind its first token, so that no rule can begin again where it has begun and has not
ended yet; and where it has ended, its result is remembered.
-/

namespace RomanScript.Grammar

open Reading

/-- Nothing has begun twice, and what has begun is remembered unless it has begun before the
position. -/
structure Tidy (s : State) : Prop where
  once : s.visits.Nodup
  settled : ∀ visit ∈ s.visits, visit ∈ s.memory.map Remembered.key ∨ visit.2 < s.position

private theorem Tidy.start : Tidy State.start :=
  ⟨.nil, List.forall_mem_nil _⟩

/-- A run that does not end before its start leaves a tidy state if nothing has begun twice. -/
theorem Tidy.behind
    {s after : State} (tidy : Tidy s) (accounts : Accounts s after) (once : after.visits.Nodup)
    (forward : s.position ≤ after.position) : Tidy after := by
  obtain ⟨visited, remembered, visits, memory, accounted⟩ := accounts
  refine ⟨once, fun visit member => ?_⟩
  rw [memory, List.map_append, List.mem_append]
  rw [visits] at member
  rcases List.mem_append.mp member with later | earlier
  · exact .inl (.inl (accounted.mem_iff.mpr later))
  · rcases tidy.settled visit earlier with isRemembered | before
    · exact .inl (.inr isRemembered)
    · exact .inr (Int.lt_of_lt_of_le before forward)

/-- What is not recalled at the position has not begun there. -/
theorem Tidy.not_mem_visits
    {s : State} (tidy : Tidy s) {symbol : Symbol} (unknown : s.recall? symbol s.position = none) :
    (symbol, s.position) ∉ s.visits := by
  intro begun
  rcases tidy.settled _ begun with isRemembered | before
  · obtain ⟨entry, member, same⟩ := List.mem_map.mp isRemembered
    obtain ⟨isSymbol, isStart⟩ := Prod.mk.inj same
    have missing := List.find?_eq_none.mp (Option.map_eq_none_iff.mp unknown) entry member
    simp [isSymbol, isStart] at missing
  · exact Int.lt_irrefl _ before

/-- The state in which a body has begun, with its first token passed. -/
theorem Tidy.opened
    {s : State} (tidy : Tidy s) {symbol : Symbol} (unknown : s.recall? symbol s.position = none) :
    Tidy { s with position := s.position + 1, visits := (symbol, s.position) :: s.visits } := by
  refine ⟨List.nodup_cons.mpr ⟨tidy.not_mem_visits unknown, tidy.once⟩, fun visit member => ?_⟩
  rcases List.mem_cons.mp member with rfl | earlier
  · exact .inr (Int.lt_add_one_of_le (Int.le_refl _))
  · exact (tidy.settled visit earlier).imp_right fun before => Int.lt_trans before (Int.lt_succ _)

/-- What is remembered at the end of a body is no beginning. -/
theorem visits_recorded (symbol : Symbol) (before : State) (outcome : Except Failure Node × State) :
    (recorded symbol before outcome).2.visits = outcome.2.visits := by
  rcases outcome with ⟨(diagnostic | misuse) | node, after⟩ <;> rfl

private theorem completed_of_recorded
    {symbol : Symbol} {before : State} {outcome : Except Failure Node × State}
    (completed : Completed (recorded symbol before outcome)) : Completed outcome := by
  rcases outcome with ⟨(diagnostic | misuse) | node, after⟩
  · exact completed_diagnostic diagnostic after
  · exact absurd rfl (completed misuse)
  · exact completed_ok node after

namespace Plan

variable {input : Input} {stop : Int} {guarded moves otherMoves : Bool} {α β : Type}
    {reading other : Reading α}

/-- From every tidy state, nothing has begun twice when the run is over. -/
def Once (stop : Int) (_ : Plan input guarded moves reading) : Prop :=
  ∀ s, Upto stop s → input.Faces guarded s.position → Tidy s → Completed (reading s) →
    (reading s).2.visits.Nodup

private theorem once_bind
    (ends : input.EndsAt stop) {begins goesOn : Bool} {first : Reading α} {next : α → Reading β}
    {begun : Plan input guarded begins first}
    {continued : ∀ value, Plan input false goesOn (next value)}
    (early : begun.Once stop) (late : ∀ value, (continued value).Once stop) :
    (bind begun continued).Once stop := by
  intro s upto faces tidy completed
  have once := early s upto faces tidy
  have accounts := begun.closed (closed_accounted input) s
  obtain ⟨lands, _⟩ := begun.advances ends s upto faces
  rw [bind_apply] at completed ⊢
  generalize first s = outcome at once accounts lands completed ⊢
  rcases outcome with ⟨(diagnostic | misuse) | value, between⟩
  · exact once (completed_diagnostic diagnostic between)
  · exact absurd rfl (completed misuse)
  · cases lands with
    | value uptoBetween forward _ =>
        have tidyBetween := tidy.behind (accounts (completed_ok value between))
          (once (completed_ok value between)) forward
        exact late value between uptoBetween (input.faces_false _) tidyBetween completed

private theorem once_ifSees
    {symbols : List Symbol} {inside : guarded = true → .endOfText ∉ symbols}
    {seen : Plan input guarded moves reading} {unseen : Plan input false otherMoves other}
    (first : seen.Once stop) (second : unseen.Once stop) :
    (ifSees inside seen unseen).Once stop := by
  intro s upto _ tidy completed
  rw [ifSees_apply] at completed ⊢
  cases ahead : input.tokenAt? s.position with
  | none => exact tidy.once
  | some token =>
      rw [ahead] at completed
      dsimp only at completed ⊢
      by_cases member : token.symbol ∈ symbols
      · rw [if_pos member] at completed ⊢
        have standing : input.At s.position symbols token := ⟨ahead, member⟩
        exact first s upto (standing.faces inside) tidy completed
      · rw [if_neg member] at completed ⊢
        exact second s upto (input.faces_false _) tidy completed

private theorem once_ifSeesCall
    {seen : Plan input guarded moves reading} {unseen : Plan input false otherMoves other}
    (first : seen.Once stop) (second : unseen.Once stop) :
    (ifSeesCall seen unseen).Once stop := by
  intro s upto _ tidy completed
  rw [bind_apply] at completed ⊢
  obtain ⟨failure, looked⟩ | looked | ⟨looked, token, name⟩ := seesCall_cases input s
  · rw [looked]
    exact tidy.once
  · rw [looked] at completed ⊢
    exact second s upto (input.faces_false _) tidy completed
  · rw [looked] at completed ⊢
    exact first s upto (name.faces fun _ => by decide) tidy completed

private theorem once_orElseAgain
    (ends : input.EndsAt stop) {begun : Plan input false moves reading}
    {again : Plan input false moves other} (first : begun.Once stop) (second : again.Once stop) :
    (orElseAgain begun again).Once stop := by
  intro s upto faces tidy completed
  have once := first s upto faces tidy
  have accounts := begun.closed (closed_accounted input) s
  obtain ⟨lands, _⟩ := begun.advances ends s upto faces
  unfold Reading.orElseAgain at completed ⊢
  generalize reading s = outcome at once accounts lands completed ⊢
  rcases outcome with ⟨(diagnostic | misuse) | value, between⟩
  · have back : Upto stop { between with position := s.position } :=
      ⟨upto.nonneg, upto.within, lands.memory⟩
    have rewound : Accounts between { between with position := s.position } := .of_eq rfl rfl
    have early := (accounts (completed_diagnostic diagnostic between)).trans rewound
    have tidyBack := tidy.behind early (once (completed_diagnostic diagnostic between))
      (Int.le_refl _)
    have late := second _ back (input.faces_false _) tidyBack
    dsimp only [retry] at completed ⊢
    generalize other { between with position := s.position } = retried at late completed ⊢
    rcases retried with ⟨(other | misuse) | value, last⟩
    · exact late (completed_diagnostic other last)
    · exact absurd rfl (completed misuse)
    · exact late (completed_ok value last)
  · exact absurd rfl (completed misuse)
  · exact once (completed_ok value between)

private theorem once_nested
    {plan : Plan input guarded moves reading} (inner : plan.Once stop) :
    (nested plan).Once stop := by
  intro s upto faces tidy completed
  by_cases crosses : input.Crosses s
  · cases ahead : input.tokenAt? s.position with
    | none =>
        rw [nested_of_crosses_none reading crosses ahead]
        exact tidy.once
    | some token =>
        rw [nested_of_crosses reading crosses ahead]
        exact tidy.once
  · rw [nested_of_not_crosses reading crosses] at completed ⊢
    exact inner s.deeper ⟨upto.nonneg, upto.within, upto.memory⟩ faces
      ⟨tidy.once, tidy.settled⟩ completed

/-- The body begins only where its result is not recalled, so for the first time. -/
theorem once_remembering
    (ends : input.EndsAt stop) (remembers : input.settings.remembers = true) {symbol : Symbol}
    {method : Method} {next : Node → Reading Node}
    {continued : ∀ opening, Plan input false moves (next opening)}
    (late : ∀ opening, (continued opening).Once stop) :
    (remembering symbol method continued).Once stop := by
  intro s upto faces tidy completed
  unfold Grammar.remembering at completed ⊢
  rw [if_pos remembers] at completed ⊢
  cases recalls : s.recall? symbol s.position with
  | some result =>
      rcases result with diagnostic | ⟨node, finish⟩ <;> exact tidy.once
  | none =>
      rw [recalls] at completed
      dsimp only at completed ⊢
      have begun : Upto stop { s with visits := (symbol, s.position) :: s.visits } :=
        ⟨upto.nonneg, upto.within, upto.memory⟩
      have before := ends.lt_of_faces faces upto
      have faced : input.Faces true
          { s with visits := (symbol, s.position) :: s.visits }.position := faces
      obtain ⟨token, taken⟩ := ends.leaf_of_faces faced begun
      have opened := begun.moved (Int.le_add_one (Int.le_refl _)) (Int.add_one_le_of_lt before)
      rw [visits_recorded]
      have ended := completed_of_recorded completed
      rw [visit_bind, bind_apply_ok taken] at ended ⊢
      exact late _ _ opened (input.faces_false _) (tidy.opened recalls) ended

/-- Whatever way a reading is put together, it begins no remembered rule twice at one position. -/
theorem once
    (ends : input.EndsAt stop) (remembers : input.settings.remembers = true)
    (plan : Plan input guarded moves reading) : plan.Once stop := by
  induction plan with
  | pure value => exact fun s _ _ tidy _ => tidy.once
  | unending => exact fun s _ _ tidy _ => tidy.once
  | refuse wanted =>
      intro s _ _ tidy _
      rw [refuse_apply]
      cases input.tokenAt? s.position <;> exact tidy.once
  | expressionRule symbol children =>
      intro s _ _ tidy _
      rw [expressionRule_apply]
      split <;> exact tidy.once
  | leaf =>
      intro s upto faces tidy _
      obtain ⟨token, taken⟩ := ends.leaf_of_faces faces upto
      rw [taken]
      exact tidy.once
  | bind _ _ early late => exact once_bind ends early late
  | ifSees _ _ _ first second => exact once_ifSees first second
  | ifSeesCall _ _ first second => exact once_ifSeesCall first second
  | withBudget _ inner =>
      exact fun s upto faces tidy completed => inner (input.budget s) s upto faces tidy completed
  | withCalls calls _ inner =>
      exact fun s upto faces tidy completed =>
        inner { s with calls := calls } ⟨upto.nonneg, upto.within, upto.memory⟩ faces
          ⟨tidy.once, tidy.settled⟩ completed
  | orElseAgain _ _ first second => exact once_orElseAgain ends first second
  | nested _ inner => exact once_nested inner
  | remembering symbol method _ late => exact once_remembering ends remembers late
  | marked method _ inner => exact inner
  | same equal _ inner =>
      subst equal
      exact inner

end Plan

variable {input : Input}

private theorem Input.Terminated.endsAt (terminated : input.Terminated) :
    input.EndsAt (input.tokens.size - 1 : Nat) := by
  have size := terminated.size_pos
  obtain ⟨finish, last, isEnd⟩ := terminated
  refine ⟨by omega, finish, ?_, List.mem_singleton.mpr isEnd⟩
  rw [Input.tokenAt?, if_neg (by omega), if_pos (Int.natCast_nonneg _), Int.toNat_natCast]
  exact last

private theorem visits_leaf (s : State) : (leaf input s).2.visits = s.visits := by
  rw [leaf_apply]
  cases input.tokenAt? s.position with
  | none => rfl
  | some token =>
      dsimp only [Input.advanced]
      split <;> rfl

private theorem nodup_visits_program
    (terminated : input.Terminated) (remembers : input.settings.remembers = true) :
    (program input State.start).2.visits.Nodup := by
  have completed : Completed (program input State.start) :=
    program_ne_misuse terminated Ready.start rfl rfl
  have once := Plan.statements.once terminated.endsAt remembers State.start
    (.start (Int.natCast_nonneg _)) (input.faces_false _) .start
  unfold program at completed ⊢
  rw [bind_apply] at completed ⊢
  generalize withBudget input (statementsWithin input) State.start = outcome at once completed ⊢
  rcases outcome with ⟨(diagnostic | misuse) | statements, after⟩
  · exact once (completed_diagnostic diagnostic after)
  · exact absurd rfl (completed misuse)
  · have visits : ((leaf input >>= fun finish =>
        pure (.rule .program (statements ++ [finish])) : Reading Node) after).2.visits =
          after.visits := by
      rw [← visits_leaf after, bind_apply]
      rcases leaf input after with ⟨failure | finish, last⟩ <;> rfl
    dsimp only
    rw [visits]
    exact once (completed_ok statements after)

/-- Where no two results are remembered under one key, each is the one that is recalled. -/
theorem recall?_of_nodup
    {s : State} (distinct : (s.memory.map Remembered.key).Nodup) {entry : Remembered}
    (member : entry ∈ s.memory) : s.recall? entry.symbol entry.start = some entry.result := by
  have found : (s.memory.find? fun other =>
      other.symbol == entry.symbol && other.start == entry.start).isSome :=
    List.find?_isSome.mpr ⟨entry, member, by simp⟩
  obtain ⟨other, isFirst⟩ := Option.isSome_iff_exists.mp found
  have same : other.symbol = entry.symbol ∧ other.start = entry.start := by
    simpa using List.find?_some isFirst
  have equal : other = entry :=
    List.inj_on_of_nodup_map distinct (List.mem_of_find?_eq_some isFirst) member
      (Prod.ext same.1 same.2)
  rw [State.recall?, isFirst, equal]
  rfl

/-- While a program is read, the body of a rule begins at most once at every position. What is
remembered of it is what the bodies gave that have begun, and is never replaced: each result is the
one that is recalled in the end. -/
theorem program_once
    {tokens : List Token} (finished : (tokens.getLast?.map (·.symbol)) = some .endOfText)
    (path : Option String) :
    (program ⟨tokens.toArray, path, .full⟩ State.start).2.visits.Nodup ∧
      ((program ⟨tokens.toArray, path, .full⟩ State.start).2.memory.map Remembered.key).Perm
        (program ⟨tokens.toArray, path, .full⟩ State.start).2.visits ∧
      ∀ entry ∈ (program ⟨tokens.toArray, path, .full⟩ State.start).2.memory,
        (program ⟨tokens.toArray, path, .full⟩ State.start).2.recall? entry.symbol entry.start =
          some entry.result := by
  have terminated := Tree.terminated_of_getLast? finished path .full
  have distinct := nodup_visits_program terminated rfl
  obtain ⟨visited, remembered, visits, memory, accounted⟩ :=
    (closed_accounted _).program State.start (program_ne_misuse terminated Ready.start rfl rfl)
  have same : ((program ⟨tokens.toArray, path, .full⟩ State.start).2.memory.map
      Remembered.key).Perm (program ⟨tokens.toArray, path, .full⟩ State.start).2.visits := by
    rw [visits, memory]
    simpa [State.start] using accounted
  exact ⟨distinct, same, fun entry member => recall?_of_nodup (same.nodup_iff.mpr distinct) member⟩

/-- The operand in parentheses is read twice, but its body begins once. -/
theorem program_once_repeatedGroup :
    (program ⟨Tree.repeatedGroup.toArray, none, .full⟩ State.start).2.visits =
        [(.group, 3), (.conditional, 1)] ∧
      [(.group, 3), ((.conditional : Symbol), (1 : Int))].Nodup ∧
        ∃ entry ∈ (program ⟨Tree.repeatedGroup.toArray, none, .full⟩ State.start).2.memory,
          entry.key = (.group, 3) ∧
            (program ⟨Tree.repeatedGroup.toArray, none, .full⟩ State.start).2.recall? .group 3 =
              some entry.result := by
  have visits : (program ⟨Tree.repeatedGroup.toArray, none, .full⟩ State.start).2.visits =
      [(.group, 3), (.conditional, 1)] := by decide +kernel
  obtain ⟨distinct, same, recalls⟩ :=
    program_once (rfl : (Tree.repeatedGroup.getLast?.map (·.symbol)) = some .endOfText) none
  rw [visits] at distinct same
  obtain ⟨entry, member, key⟩ := List.mem_map.mp (same.mem_iff.mpr (.head _))
  obtain ⟨isSymbol, isStart⟩ := Prod.mk.inj key
  refine ⟨visits, distinct, entry, member, key, ?_⟩
  rw [← isSymbol, ← isStart]
  exact recalls entry member

end RomanScript.Grammar
