import RomanScript.Proofs.Compilation
import RomanScript.Proofs.Reading.Acceptance
import RomanScript.Proofs.Reading.Memory
import RomanScript.Proofs.Reading.Plan

/-!
# Readings move on

Up to the first token that ends the text, every method that succeeds has passed a token at least,
and no token that ends the text is taken. This is read off the plan of a reading: a guarded reading
begins in front of a token that does not end the text, and only such a reading takes a token.
-/

namespace RomanScript.Grammar

open Reading

def Input.EndsAt (input : Input) (stop : Int) : Prop :=
  stop < input.tokens.size ∧ input.Ahead [.endOfText] stop

/-- All that is remembered moves on, and not beyond the position. -/
def Contained (stop : Int) (memory : List Remembered) : Prop :=
  ∀ entry ∈ memory, ∀ node finish, entry.result = .ok (node, finish) →
    entry.start < finish ∧ finish ≤ stop

/-- A state that has not passed the position, and remembers nothing beyond it. -/
structure Upto (stop : Int) (s : State) : Prop where
  nonneg : 0 ≤ s.position
  within : s.position ≤ stop
  memory : Contained stop s.memory

/-- What a guarded reading needs: a token ahead that does not end the text. -/
def Input.Faces (input : Input) (guarded : Bool) (position : Int) : Prop :=
  guarded = true →
    ∃ token, input.tokenAt? position = some token ∧ token.symbol ≠ .endOfText

/-- What happens does not pass the position, and a method that succeeds has moved on. -/
def Event.Within (stop : Int) : Event → Prop
  | .taken position => 0 ≤ position ∧ position < stop
  | .ended _ start finish =>
    0 ≤ start ∧ start ≤ stop ∧ ∀ behind, finish = some behind → start < behind ∧ behind ≤ stop

/-- How a run from a state may end that does not pass the position: if it succeeds, it ends where it
has begun or further on, and further on where the reading moves. -/
inductive Lands {α : Type} (stop : Int) (moves : Bool) (s : State) :
    Except Failure α × State → Prop
  | value {a : α} {after : State} :
      Upto stop after → s.position ≤ after.position →
      (moves = true → s.position < after.position) → Lands stop moves s (.ok a, after)
  | failure {failure : Failure} {after : State} :
      Contained stop after.memory → Lands stop moves s (.error failure, after)

variable {input : Input} {stop : Int} {s : State} {α β : Type}

theorem Input.faces_false (input : Input) (position : Int) : input.Faces false position := by
  intro absurd
  cases absurd

theorem Input.At.faces
    {position : Int} {symbols : List Symbol} {token : Token} {guarded : Bool}
    (standing : input.At position symbols token) (inside : guarded = true → .endOfText ∉ symbols) :
    input.Faces guarded position :=
  fun isGuarded => ⟨token, standing.1, fun isEnd => inside isGuarded (isEnd ▸ standing.2)⟩

theorem Input.EndsAt.lt_of_faces
    (ends : input.EndsAt stop) (faces : input.Faces true s.position) (upto : Upto stop s) :
    s.position < stop := by
  obtain ⟨token, ahead, inside⟩ := faces rfl
  obtain ⟨finish, found, isEnd⟩ := ends.2
  have within := upto.within
  by_cases here : s.position = stop
  · rw [here, found, Option.some.injEq] at ahead
    rw [List.mem_singleton] at isEnd
    exact absurd (ahead ▸ isEnd) inside
  · omega

/-- In front of a token that does not end the text, a leaf is read. -/
theorem Input.EndsAt.leaf_of_faces
    (ends : input.EndsAt stop) (faces : input.Faces true s.position) (upto : Upto stop s) :
    ∃ token, leaf input s = (.ok (.leaf token), { s with position := s.position + 1 }) := by
  have before := ends.lt_of_faces faces upto
  have inside := ends.1
  obtain ⟨token, ahead, _⟩ := faces rfl
  refine ⟨token, ?_⟩
  rw [leaf_apply, ahead]
  dsimp only [Input.advanced]
  rw [if_pos (by omega)]

namespace Upto

theorem start (nonneg : 0 ≤ stop) : Upto stop State.start :=
  ⟨Int.le_refl 0, nonneg, fun _ member => absurd member List.not_mem_nil⟩

theorem moved
    (upto : Upto stop s) {position : Int} (forward : s.position ≤ position)
    (within : position ≤ stop) : Upto stop { s with position := position } :=
  ⟨Int.le_trans upto.nonneg forward, within, upto.memory⟩

end Upto

namespace Lands

variable {moves : Bool} {outcome : Except Failure α × State}

theorem memory (lands : Lands stop moves s outcome) : Contained stop outcome.2.memory := by
  cases lands with
  | value upto => exact upto.memory
  | failure contained => exact contained

private theorem stays (upto : Upto stop s) (value : α) : Lands stop false s (.ok value, s) :=
  .value upto (Int.le_refl _) (by simp)

/-- Only positions matter for where a run has begun. -/
theorem of_begun {before : State} (same : before.position = s.position)
    (lands : Lands stop moves before outcome) : Lands stop moves s outcome := by
  cases lands with
  | value upto forward further =>
      rw [same] at forward further
      exact .value upto forward further
  | failure contained => exact .failure contained

/-- Only the position and the memory matter for how a run has ended. -/
theorem changed
    (lands : Lands stop moves s outcome) (change : State → State)
    (position : ∀ s, (change s).position = s.position)
    (memory : ∀ s, (change s).memory = s.memory) :
    Lands stop moves s (outcome.1, change outcome.2) := by
  cases lands with
  | @value a after upto forward further =>
      refine .value ⟨?_, ?_, ?_⟩ ?_ ?_
      · rw [position]
        exact upto.nonneg
      · rw [position]
        exact upto.within
      · rw [memory]
        exact upto.memory
      · rw [position]
        exact forward
      · rw [position]
        exact further
  | failure contained =>
      refine .failure ?_
      rw [memory]
      exact contained

/-- What is remembered at the end of a run has moved on as the run has. -/
theorem recorded
    {symbol : Symbol} {outcome : Except Failure Node × State}
    (lands : Lands stop true s outcome) :
    Lands stop true s (Grammar.recorded symbol s outcome) := by
  cases lands with
  | @value node after upto forward further =>
      refine .value ⟨upto.nonneg, upto.within, ?_⟩ forward further
      refine List.forall_mem_cons.mpr ⟨fun _ _ same => ?_, upto.memory⟩
      cases same
      exact ⟨further rfl, upto.within⟩
  | @failure failure after contained =>
      cases failure with
      | diagnostic diagnostic =>
          refine .failure (List.forall_mem_cons.mpr ⟨fun _ _ absurd => ?_, contained⟩)
          cases absurd
      | misuse misuse => exact .failure contained

/-- Less may be asked of where a run ends. -/
theorem weaken
    {fewer : Bool} (lands : Lands stop moves s outcome) (weaker : fewer = true → moves = true) :
    Lands stop fewer s outcome := by
  cases lands with
  | value upto forward further => exact .value upto forward fun moved => further (weaker moved)
  | failure contained => exact .failure contained

end Lands

/-! ## Plans -/

namespace Plan

variable {guarded moves otherMoves : Bool} {reading other : Reading α}

/-- From every state that has not passed the position, the run ends as planned, and all that happens
meanwhile lies before the position. -/
def Advances (stop : Int) (plan : Plan input guarded moves reading) : Prop :=
  ∀ s, Upto stop s → input.Faces guarded s.position →
    Lands stop moves s (reading s) ∧ ∀ event ∈ plan.events s, event.Within stop

private theorem advances_leaf (ends : input.EndsAt stop) : (leaf : Plan input _ _ _).Advances stop := by
  intro s upto faces
  have before := ends.lt_of_faces faces upto
  obtain ⟨token, read⟩ := ends.leaf_of_faces faces upto
  rw [read]
  refine ⟨.value (upto.moved ?_ ?_) ?_ fun _ => ?_, ?_⟩
  · omega
  · omega
  · dsimp only
    omega
  · dsimp only
    omega
  · intro event member
    rw [List.mem_singleton.mp member]
    exact ⟨upto.nonneg, before⟩

private theorem advances_bind
    {begins goesOn : Bool} {first : Reading α} {next : α → Reading β}
    {begun : Plan input guarded begins first} {continued : ∀ value, Plan input false goesOn (next value)}
    (early : begun.Advances stop) (late : ∀ value, (continued value).Advances stop) :
    (bind begun continued).Advances stop := by
  intro s upto faces
  obtain ⟨lands, within⟩ := early s upto faces
  rw [bind_apply, events_bind]
  generalize first s = outcome at lands ⊢
  cases lands with
  | @value a after uptoAfter forward further =>
      obtain ⟨landsLater, withinLater⟩ := late a after uptoAfter (input.faces_false _)
      refine ⟨?_, fun event member => (List.mem_append.mp member).elim (within event)
        (withinLater event)⟩
      dsimp only
      generalize next a after = outcome at landsLater ⊢
      cases landsLater with
      | value uptoLast forwardLater furtherLater =>
          refine .value uptoLast (Int.le_trans forward forwardLater) fun moved => ?_
          rcases (Bool.or_eq_true _ _).mp moved with first | second
          · exact Int.lt_of_lt_of_le (further first) forwardLater
          · exact Int.lt_of_le_of_lt forward (furtherLater second)
      | failure contained => exact .failure contained
  | failure contained =>
      rw [onward, List.append_nil]
      exact ⟨.failure contained, within⟩

private theorem advances_ifSees
    {symbols : List Symbol} {inside : guarded = true → .endOfText ∉ symbols}
    {seen : Plan input guarded moves reading} {unseen : Plan input false otherMoves other}
    (first : seen.Advances stop) (second : unseen.Advances stop) :
    (ifSees inside seen unseen).Advances stop := by
  intro s upto _
  rw [ifSees_apply, events_ifSees]
  cases ahead : input.tokenAt? s.position with
  | none => exact ⟨.failure upto.memory, List.forall_mem_nil _⟩
  | some token =>
      dsimp only
      by_cases member : token.symbol ∈ symbols
      · rw [if_pos member, if_pos member]
        have standing : input.At s.position symbols token := ⟨ahead, member⟩
        obtain ⟨lands, within⟩ := first s upto (standing.faces inside)
        exact ⟨lands.weaken fun both => ((Bool.and_eq_true _ _).mp both).1, within⟩
      · rw [if_neg member, if_neg member]
        obtain ⟨lands, within⟩ := second s upto (input.faces_false _)
        exact ⟨lands.weaken fun both => ((Bool.and_eq_true _ _).mp both).2, within⟩

/-- Looking for a call leaves the state alone and finds none where no token is ahead. -/
theorem seesCall_cases (input : Input) (s : State) :
    (∃ failure, seesCall input s = (.error failure, s)) ∨ seesCall input s = (.ok false, s) ∨
      seesCall input s = (.ok true, s) ∧ input.Ahead [.identifier] s.position := by
  rw [seesCall_apply]
  split_ifs
  · cases ahead : input.tokenAt? s.position with
    | none => exact .inl ⟨_, rfl⟩
    | some token =>
        dsimp only
        split_ifs with name
        · cases input.tokenAt? (s.position + 1) with
          | none => exact .inl ⟨_, rfl⟩
          | some next =>
              dsimp only
              cases atomStart.contains next.symbol with
              | false => exact .inr (.inl rfl)
              | true => exact .inr (.inr ⟨rfl, token, ahead, List.mem_singleton.mpr name⟩)
        · exact .inr (.inl rfl)
  · exact .inr (.inl rfl)

private theorem advances_ifSeesCall
    {seen : Plan input guarded moves reading} {unseen : Plan input false otherMoves other}
    (first : seen.Advances stop) (second : unseen.Advances stop) :
    (ifSeesCall seen unseen).Advances stop := by
  intro s upto _
  rw [bind_apply, events_ifSeesCall]
  obtain ⟨failure, looked⟩ | looked | ⟨looked, token, name⟩ := seesCall_cases input s
  · rw [looked]
    exact ⟨.failure upto.memory, List.forall_mem_nil _⟩
  · rw [looked]
    obtain ⟨lands, within⟩ := second s upto (input.faces_false _)
    exact ⟨lands.weaken fun both => ((Bool.and_eq_true _ _).mp both).2, within⟩
  · rw [looked]
    obtain ⟨lands, within⟩ := first s upto (name.faces fun _ => by decide)
    exact ⟨lands.weaken fun both => ((Bool.and_eq_true _ _).mp both).1, within⟩

private theorem advances_orElseAgain
    {begun : Plan input false moves reading} {again : Plan input false moves other}
    (first : begun.Advances stop) (second : again.Advances stop) :
    (orElseAgain begun again).Advances stop := by
  intro s upto faces
  obtain ⟨lands, within⟩ := first s upto faces
  rw [events_orElseAgain]
  unfold Reading.orElseAgain
  generalize reading s = outcome at lands ⊢
  rcases outcome with ⟨(diagnostic | misuse) | value, after⟩
  · have back : Upto stop { after with position := s.position } :=
      ⟨upto.nonneg, upto.within, lands.memory⟩
    obtain ⟨landsLater, withinLater⟩ := second _ back (input.faces_false _)
    refine ⟨?_, fun event member => (List.mem_append.mp member).elim (within event)
      (withinLater event)⟩
    dsimp only [retry]
    generalize other { after with position := s.position } = outcome at landsLater ⊢
    cases landsLater with
    | value uptoLast forward further => exact .value uptoLast forward further
    | @failure failure last contained => cases failure <;> exact .failure contained
  · rw [List.append_nil]
    exact ⟨lands, within⟩
  · rw [List.append_nil]
    exact ⟨lands, within⟩

private theorem advances_nested
    {plan : Plan input guarded moves reading} (inner : plan.Advances stop) :
    (nested plan).Advances stop := by
  intro s upto faces
  rw [events_nested]
  by_cases crosses : input.Crosses s
  · rw [if_pos crosses]
    refine ⟨?_, List.forall_mem_nil _⟩
    cases ahead : input.tokenAt? s.position with
    | none =>
        rw [nested_of_crosses_none reading crosses ahead]
        exact .failure upto.memory
    | some token =>
        rw [nested_of_crosses reading crosses ahead]
        exact .failure upto.memory
  · rw [if_neg crosses, nested_of_not_crosses reading crosses]
    have deeper : Upto stop s.deeper := ⟨upto.nonneg, upto.within, upto.memory⟩
    obtain ⟨lands, within⟩ := inner s.deeper deeper faces
    have ended := lands.changed State.shallower (fun _ => rfl) fun _ => rfl
    have same : s.deeper.position = s.position := rfl
    exact ⟨.of_begun same ended, within⟩

private theorem within_ofOutcome
    {method : Method} {outcome : Except Failure α × State} (upto : Upto stop s)
    (lands : Lands stop true s outcome) :
    (Event.ofOutcome method s.position outcome).Within stop := by
  cases lands with
  | value uptoAfter _ further =>
      refine ⟨upto.nonneg, upto.within, fun behind same => ?_⟩
      cases same
      exact ⟨further rfl, uptoAfter.within⟩
  | failure => exact ⟨upto.nonneg, upto.within, fun behind absurd => by cases absurd⟩

private theorem advances_marked
    {plan : Plan input guarded true reading} (method : Method) (inner : plan.Advances stop) :
    (marked method plan).Advances stop := by
  intro s upto faces
  obtain ⟨lands, within⟩ := inner s upto faces
  refine ⟨lands, fun event member => ?_⟩
  rw [events_marked] at member
  rcases List.mem_append.mp member with meanwhile | ending
  · exact within event meanwhile
  · rw [List.mem_singleton.mp ending]
    exact within_ofOutcome upto lands

private theorem advances_withCalls
    {plan : Plan input guarded moves reading} (calls : Bool) (inner : plan.Advances stop) :
    (withCalls calls plan).Advances stop := by
  intro s upto faces
  rw [events_withCalls]
  have within : Upto stop { s with calls := calls } := ⟨upto.nonneg, upto.within, upto.memory⟩
  obtain ⟨lands, meanwhile⟩ := inner _ within faces
  have ended := lands.changed (fun after => { after with calls := s.calls }) (fun _ => rfl)
    fun _ => rfl
  have same : { s with calls := calls }.position = s.position := rfl
  exact ⟨.of_begun same ended, meanwhile⟩

private theorem advances_remembering
    (ends : input.EndsAt stop) {symbol : Symbol} {method : Method} {next : Node → Reading Node}
    {continued : ∀ opening, Plan input false moves (next opening)}
    (late : ∀ opening, (continued opening).Advances stop) :
    (remembering symbol method continued).Advances stop := by
  intro s upto faces
  rw [events_remembering]
  unfold Grammar.remembering
  generalize recalls :
    (if input.settings.remembers then s.recall? symbol s.position else none) = found
  cases found with
  | some result =>
      obtain ⟨_, entry, member, _, isStart, remembered⟩ := exists_entry_of_recall recalls
      refine ⟨?_, List.forall_mem_nil _⟩
      cases result with
      | error diagnostic => exact .failure upto.memory
      | ok value =>
          obtain ⟨node, finish⟩ := value
          obtain ⟨forward, inside⟩ := upto.memory entry member node finish remembered
          rw [isStart] at forward
          exact .value (upto.moved (Int.le_of_lt forward) inside) (Int.le_of_lt forward)
            fun _ => forward
  | none =>
      have begun : Upto stop { s with visits := (symbol, s.position) :: s.visits } :=
        ⟨upto.nonneg, upto.within, upto.memory⟩
      obtain ⟨lands, within⟩ := advances_bind (advances_leaf ends) late _ begun faces
      rw [events_bind, events_leaf, List.singleton_append] at within
      have same : { s with visits := (symbol, s.position) :: s.visits }.position = s.position := rfl
      have landed := Lands.of_begun same lands
      refine ⟨landed.recorded, fun event member => ?_⟩
      rcases List.mem_append.mp member with meanwhile | ending
      · exact within event meanwhile
      · rw [List.mem_singleton.mp ending]
        exact within_ofOutcome upto landed

/-- Every reading that has a plan moves on as planned. -/
theorem advances
    (ends : input.EndsAt stop) (plan : Plan input guarded moves reading) : plan.Advances stop := by
  induction plan with
  | pure value => exact fun s upto _ => ⟨.stays upto value, List.forall_mem_nil _⟩
  | unending => exact fun s upto _ => ⟨.failure upto.memory, List.forall_mem_nil _⟩
  | refuse wanted =>
      intro s upto _
      rw [refuse_apply]
      refine ⟨?_, List.forall_mem_nil _⟩
      cases input.tokenAt? s.position <;> exact .failure upto.memory
  | expressionRule symbol children =>
      intro s upto _
      rw [expressionRule_apply]
      refine ⟨?_, List.forall_mem_nil _⟩
      split
      · exact .failure upto.memory
      · exact .stays upto _
  | leaf => exact advances_leaf ends
  | bind _ _ early late => exact advances_bind early late
  | ifSees _ _ _ first second => exact advances_ifSees first second
  | ifSeesCall _ _ first second => exact advances_ifSeesCall first second
  | withBudget _ inner => exact fun s upto faces => inner (input.budget s) s upto faces
  | withCalls calls _ inner => exact advances_withCalls calls inner
  | orElseAgain _ _ first second => exact advances_orElseAgain first second
  | nested _ inner => exact advances_nested inner
  | remembering symbol method _ late => exact advances_remembering ends late
  | marked method _ inner => exact advances_marked method inner
  | same equal _ inner =>
      subst equal
      exact inner

end Plan

/-! ## Programs -/

section Lists

variable {tokens before behind : List Token} {finish : Token} (path : Option String)
    (settings : Settings)

private theorem exists_first_end
    (finished : (tokens.getLast?.map (·.symbol)) = some .endOfText) :
    ∃ before finish behind, tokens = before ++ finish :: behind ∧
      (∀ token ∈ before, token.symbol ≠ .endOfText) ∧ finish.symbol = .endOfText := by
  obtain ⟨last, isLast, lastEnds⟩ := Option.map_eq_some_iff.mp finished
  have found : (tokens.find? fun token => token.symbol == .endOfText).isSome :=
    List.find?_isSome.mpr ⟨last, List.mem_of_getLast? isLast, by simp [lastEnds]⟩
  obtain ⟨finish, isFirst⟩ := Option.isSome_iff_exists.mp found
  obtain ⟨isEnd, before, behind, split, noEnd⟩ := List.find?_eq_some_iff_append.mp isFirst
  exact ⟨before, finish, behind, split, by simpa using noEnd, by simpa using isEnd⟩

private theorem endsAt_finish (isEnd : finish.symbol = .endOfText) :
    (Input.mk (before ++ finish :: behind).toArray path settings).EndsAt before.length := by
  refine ⟨?_, finish, at_finish settings isEnd⟩
  rw [List.size_toArray, List.length_append, List.length_cons]
  omega

/-- No token ends the text before the first that does. -/
theorem eq_of_ahead_endOfText
    (noEnd : ∀ token ∈ before, token.symbol ≠ .endOfText) {position : Int} (nonneg : 0 ≤ position)
    (within : position ≤ before.length)
    (ahead : (Input.mk (before ++ finish :: behind).toArray path settings).Ahead [.endOfText]
      position) : position = before.length := by
  by_contra other
  obtain ⟨token, found, isEnd⟩ := ahead
  have inside : position < (before ++ finish :: behind).length := by
    rw [List.length_append, List.length_cons]
    omega
  have here := getElem?_of_tokenAt? nonneg inside found
  rw [List.getElem?_append_left (by omega)] at here
  exact noEnd token (List.mem_of_getElem? here) (List.mem_singleton.mp isEnd)

end Lists

/-- A program is accepted as soon as its statements are, since they end in front of a token that
ends the text. -/
theorem exists_program_of_statements_ok
    (terminated : input.Terminated) {statements : List Node} {after : State}
    (read : Reading.withBudget input (statementsWithin input) State.start = (.ok statements, after)) :
    input.Ahead [.endOfText] after.position ∧
      ∃ root last, program input State.start = (.ok root, last) := by
  have ended := @ends_statementsWithin input (fun _ => True) terminated
    (fun _ _ _ _ _ _ _ => trivial) (input.budget State.start) State.start Ready.start
    (by dsimp only [Input.budget]; omega)
  obtain ⟨token, ahead, isEnd⟩ : input.Ahead [.endOfText] after.position := by
    rw [withBudget] at read
    rw [read] at ended
    cases ended with
    | value _ derived => exact derived.ahead_endOfText
  refine ⟨⟨token, ahead, isEnd⟩, .rule .program (statements ++ [.leaf token]),
    input.advanced after, ?_⟩
  rw [program, bind_apply_ok read, bind_apply, leaf_apply, ahead]
  rfl

end RomanScript.Grammar

namespace RomanScript.Tree

open Grammar

def eventsOfTokens (tokens : List Token) (path : Option String) : List Event :=
  programEvents ⟨tokens.toArray, path, .full⟩ State.start

/-- Reading ends with a tree or a diagnostic. Every method that succeeds has moved on, up to the
first token that ends the text at most. Only such tokens are taken as stand before it; it is taken
itself once, at the end of a program that is accepted. -/
theorem ofTokens_progress
    {tokens : List Token} (finished : (tokens.getLast?.map (·.symbol)) = some .endOfText)
    (path : Option String) :
    ∃ before finish behind, tokens = before ++ finish :: behind ∧
      (∀ token ∈ before, token.symbol ≠ .endOfText) ∧ finish.symbol = .endOfText ∧
        ((∃ tree events, ofTokens tokens path = .ok tree ∧
            eventsOfTokens tokens path = events ++ [.taken before.length] ∧
            ∀ event ∈ events, event.Within before.length) ∨
          ∃ diagnostic, ofTokens tokens path = .error (.diagnostic diagnostic) ∧
            diagnostic.stage = some .grammatical ∧
            ∀ event ∈ eventsOfTokens tokens path, event.Within before.length) := by
  obtain ⟨before, finish, behind, rfl, noEnd, isEnd⟩ := exists_first_end finished
  refine ⟨before, finish, behind, rfl, noEnd, isEnd, ?_⟩
  have terminated := terminated_of_getLast? finished path .full
  have ends := @endsAt_finish before behind finish path .full isEnd
  obtain ⟨lands, within⟩ := Plan.advances ends .statements State.start
    (.start (Int.natCast_nonneg _)) (Input.faces_false _ _)
  have parses := parsed_ofTokens finished path
  unfold eventsOfTokens programEvents
  dsimp only [Plan.run]
  rw [ofTokens, ofTokensUnder_of_finished finished] at parses ⊢
  generalize read : Reading.withBudget _ (statementsWithin _) State.start = outcome at lands ⊢
  cases lands with
  | @value statements after upto =>
      obtain ⟨ahead, root, last, accepted⟩ := exists_program_of_statements_ok terminated read
      have here := eq_of_ahead_endOfText path .full noEnd upto.nonneg upto.within ahead
      rw [accepted]
      exact .inl ⟨⟨root, path⟩, _, rfl, by rw [← here]; rfl, within⟩
  | @failure failure after contained =>
      have refused : program ⟨(before ++ finish :: behind).toArray, path, .full⟩ State.start =
          (.error failure, after) := by
        rw [program, Reading.bind_apply, read]
      rw [refused] at parses ⊢
      cases parses with
      | @diagnostic diagnostic blames =>
          refine .inr ⟨diagnostic, rfl, blames.stage, ?_⟩
          rw [Plan.onward, List.append_nil]
          exact within

/-- A conditional that is read again without calls, in front of a text that is not read any more. -/
theorem ofTokens_progress_repeatedGroup :
    ((repeatedGroup ++ oneOutput).getLast?.map (·.symbol)) = some .endOfText ∧
      ∃ tree events, ofTokens (repeatedGroup ++ oneOutput) none = .ok tree ∧
        eventsOfTokens (repeatedGroup ++ oneOutput) none = events ++ [.taken 7] ∧
          ∀ event ∈ events, event.Within 7 := by
  have finished : ((repeatedGroup ++ oneOutput).getLast?.map (·.symbol)) = some .endOfText := rfl
  refine ⟨finished, ?_⟩
  obtain ⟨before, finish, behind, split, noEnd, isEnd, progress⟩ := ofTokens_progress finished none
  have first : repeatedGroup ++ oneOutput =
      repeatedGroup.take 7 ++ ⟨.endOfText, "", 1, 7⟩ :: oneOutput := rfl
  obtain ⟨same, _⟩ := first_end_unique noEnd isEnd (by decide) rfl (split.symm.trans first)
  have length : before.length = 7 := congrArg List.length same
  rw [length] at progress
  obtain accepted | ⟨diagnostic, refused, _⟩ := progress
  · exact accepted
  · have isOk : (ofTokens (repeatedGroup ++ oneOutput) none).isOk = true := by decide +kernel
    rw [refused] at isOk
    cases isOk

example :
    eventsOfTokens oneOutput none =
      [.taken 0, .taken 1, .ended .atom 1 (some 2), .ended .term 1 (some 2),
        .ended .signed 1 (some 2), .ended .product 1 (some 2), .ended .sum 1 (some 2),
        .ended .expression 1 (some 2), .ended .outputStmt 0 (some 2), .ended .statement 0 (some 2),
        .taken 2] := by
  decide +kernel

end RomanScript.Tree
