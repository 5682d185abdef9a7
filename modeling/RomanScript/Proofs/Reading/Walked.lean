import RomanScript.Proofs.Reading.Growth
import RomanScript.Proofs.Reading.Walk

/-!
# Readings as walks

What a reading does to the walks. It begins where what is remembered fits, remembers only what
begins behind that, and ends where what is remembered fits again. If its first attempt may be
repeated, one must also be able to walk from its beginning again: to the end, where it had a value,
and as far as it came, where it failed.
-/

namespace RomanScript.Grammar

open Reading

/-- Only results of rules that begin behind the first state are added. -/
def Adds (before after : State) : Prop :=
  ∃ added, after.memory = added ++ before.memory ∧
    ∀ entry ∈ added, before.position ≤ entry.start

/-- How a reading may leave a state: with a value, not further ahead than before, or with a
diagnostic. What holds then is left open. -/
inductive Leaves {α : Type} (s : State) (values : α → State → Prop) (fails : State → Prop) :
    Except Failure α × State → Prop
  | misuse {misuse : Misuse} {s' : State} :
      Leaves s values fails (.error (.misuse misuse), s')
  | diagnostic {diagnostic : Diagnostic} {s' : State} :
      Adds s s' → fails s' → Leaves s values fails (.error (.diagnostic diagnostic), s')
  | value {a : α} {s' : State} :
      Adds s s' → s.position ≤ s'.position → values a s' → Leaves s values fails (.ok a, s')

variable {input : Input} {α β : Type} {s : State}

theorem adds_of_eq {s' : State} (same : s'.memory = s.memory) : Adds s s' :=
  ⟨[], same, fun _ member => absurd member List.not_mem_nil⟩

private theorem Adds.trans
    {second third : State} (left : Adds s second) (forward : s.position ≤ second.position)
    (right : Adds second third) : Adds s third := by
  obtain ⟨earlier, earlierMemory, earlierBehind⟩ := left
  obtain ⟨later, laterMemory, laterBehind⟩ := right
  refine ⟨later ++ earlier, by rw [laterMemory, earlierMemory, List.append_assoc], ?_⟩
  intro entry member
  rcases List.mem_append.mp member with inLater | inEarlier
  · exact Int.le_trans forward (laterBehind entry inLater)
  · exact earlierBehind entry inEarlier

theorem Adds.remember
    {s' : State} (adds : Adds s s') (symbol : Symbol) (result : Except Diagnostic (Node × Int)) :
    Adds s (s'.remember s symbol result) := by
  obtain ⟨added, memory, behind⟩ := adds
  refine ⟨_ :: added, congrArg (List.cons _) memory, ?_⟩
  exact List.forall_mem_cons.mpr ⟨Int.le_refl _, behind⟩

theorem Leaves.imp
    {values values' : α → State → Prop} {fails fails' : State → Prop}
    {outcome : Except Failure α × State} (left : Leaves s values fails outcome)
    (valued : ∀ a s', Adds s s' → s.position ≤ s'.position → values a s' → values' a s')
    (failed : ∀ s', Adds s s' → fails s' → fails' s') :
    Leaves s values' fails' outcome := by
  cases left with
  | misuse => exact .misuse
  | diagnostic adds holds => exact .diagnostic adds (failed _ adds holds)
  | value adds forward holds => exact .value adds forward (valued _ _ adds forward holds)

theorem Leaves.bind
    (input : Input) {values : α → State → Prop} {values' : β → State → Prop} {fails : State → Prop}
    {first : Reading α} {next : α → Reading β} [Keeps input first]
    (begun : Leaves s values fails (first s))
    (continued : ∀ a s', Grows input s s' → Adds s s' → s.position ≤ s'.position → values a s' →
      Leaves s' values' fails (next a s')) :
    Leaves s values' fails ((first >>= next) s) := by
  have grown : Grows input s (first s).2 := Keeps.grows s
  rw [bind_apply]
  generalize first s = outcome at begun grown ⊢
  cases begun with
  | misuse => exact .misuse
  | diagnostic adds holds => exact .diagnostic adds holds
  | @value a s' adds forward holds =>
      have rest := continued a s' grown adds forward holds
      dsimp only
      generalize next a s' = outcome at rest ⊢
      cases rest with
      | misuse => exact .misuse
      | diagnostic addsRest holds => exact .diagnostic (adds.trans forward addsRest) holds
      | value addsRest forwardRest holds =>
          exact .value (adds.trans forward addsRest) (Int.le_trans forward forwardRest) holds

/-- Changes of other parts than the position and the memory do not show. -/
theorem Leaves.changed
    {values : α → State → Prop} {fails : State → Prop} {outcome : Except Failure α × State}
    (left : Leaves s values fails outcome) (change : State → State)
    (position : ∀ s, (change s).position = s.position)
    (memory : ∀ s, (change s).memory = s.memory)
    (valued : ∀ a s', values a s' → values a (change s'))
    (failed : ∀ s', fails s' → fails (change s')) :
    Leaves s values fails (outcome.1, change outcome.2) := by
  cases left with
  | misuse => exact .misuse
  | @diagnostic _ s' adds holds =>
      obtain ⟨added, same, behind⟩ := adds
      exact .diagnostic ⟨added, (memory s').trans same, behind⟩ (failed s' holds)
  | @value a s' adds forward holds =>
      obtain ⟨added, same, behind⟩ := adds
      exact .value ⟨added, (memory s').trans same, behind⟩ ((position s').symm ▸ forward)
        (valued a s' holds)

/-- What leaves a state leaves an earlier one with the same memory. -/
theorem Leaves.of_later
    {values : α → State → Prop} {fails : State → Prop} {outcome : Except Failure α × State}
    {s' : State} (left : Leaves s' values fails outcome)
    (later : s.position ≤ s'.position) (memory : s'.memory = s.memory) :
    Leaves s values fails outcome := by
  have passed : Adds s s' := adds_of_eq memory
  cases left with
  | misuse => exact .misuse
  | diagnostic adds holds => exact .diagnostic (passed.trans later adds) holds
  | value adds forward holds =>
      exact .value (passed.trans later adds) (Int.le_trans later forward) holds

/-- A second attempt begins where the first one began, with all that the first one remembered. -/
theorem Leaves.orElseAgain
    (input : Input) {values : α → State → Prop} {fails : State → Prop} {first again : Reading α}
    [Keeps input first] (begun : Leaves s values fails (first s))
    (retried : ∀ s', Grows input s s' → fails s' →
      Leaves { s' with position := s.position } values (fun _ => True)
        (again { s' with position := s.position })) :
    Leaves s values (fun _ => True) (Reading.orElseAgain first again s) := by
  have grown : Grows input s (first s).2 := Keeps.grows s
  unfold Reading.orElseAgain
  generalize first s = outcome at begun grown ⊢
  cases begun with
  | misuse => exact .misuse
  | value adds forward holds => exact .value adds forward holds
  | @diagnostic diagnostic s' adds holds =>
      have rewound : Adds s { s' with position := s.position } := adds
      have later := retried s' grown holds
      dsimp only [retry]
      generalize again { s' with position := s.position } = outcome at later ⊢
      cases later with
      | misuse => exact .misuse
      | diagnostic addsLater _ =>
          exact .diagnostic (rewound.trans (Int.le_refl _) addsLater) trivial
      | value addsLater forward holds =>
          exact .value (rewound.trans (Int.le_refl _) addsLater) forward holds

/-- Either branch may be taken, each where its token stands. -/
theorem ifSees_cases
    {outcomes : Except Failure α × State → Prop} {symbols : List Symbol}
    {first other : Reading α}
    (misuse : ∀ misuse s', outcomes (.error (.misuse misuse), s'))
    (seen : ∀ token, input.At s.position symbols token → outcomes (first s))
    (unseen : ¬ input.Ahead symbols s.position → outcomes (other s)) :
    outcomes
      ((sees input symbols >>= fun found => if found = true then first else other) s) := by
  rw [ifSees_apply]
  cases ahead : input.tokenAt? s.position with
  | none => exact misuse _ _
  | some token =>
      dsimp only
      by_cases member : token.symbol ∈ symbols
      · rw [if_pos member]
        exact seen token ⟨ahead, member⟩
      · rw [if_neg member]
        exact unseen (not_ahead_of_tokenAt? input ahead member)

/-- A call is read where calls are recognised and a name stands before an atom. -/
theorem ifSeesCall_cases
    {outcomes : Except Failure α × State → Prop} {first other : Reading α}
    (misuse : ∀ misuse s', outcomes (.error (.misuse misuse), s'))
    (seen : ∀ token, input.At s.position [.identifier] token → outcomes (first s))
    (unseen : (s.calls = true → input.Ahead [.identifier] s.position →
      ¬ input.Ahead atomStart (s.position + 1)) → outcomes (other s)) :
    outcomes
      ((seesCall input >>= fun found => if found = true then first else other) s) := by
  rw [bind_apply, seesCall_apply]
  by_cases calls : s.calls = true
  · rw [if_pos calls]
    cases ahead : input.tokenAt? s.position with
    | none => exact misuse _ _
    | some token =>
        dsimp only
        by_cases name : token.symbol = .identifier
        · rw [if_pos name]
          cases behind : input.tokenAt? (s.position + 1) with
          | none => exact misuse _ _
          | some next =>
              dsimp only
              by_cases member : next.symbol ∈ atomStart
              · rw [if_pos (by simpa using member)]
                exact seen token ⟨ahead, List.mem_singleton.mpr name⟩
              · rw [if_neg (by simpa using member)]
                exact unseen fun _ _ => not_ahead_of_tokenAt? input behind member
        · rw [if_neg name]
          have noName : ¬ input.Ahead [.identifier] s.position :=
            not_ahead_of_tokenAt? input ahead (by simpa using name)
          exact unseen fun _ isName => absurd isName noName
  · rw [if_neg calls]
    exact unseen fun recognised => absurd recognised calls

/-- Whatever else is remembered from the later place on, one can walk up to it from the earlier
one. -/
def WalksTo (input : Input) (memory : List Remembered) (base : Nat) (earlier later : Place) :
    Prop :=
  ∀ more, (∀ entry ∈ more, later.position ≤ entry.start) →
    Fits input (more ++ memory) base later → Fits input (more ++ memory) base earlier

/-- What is remembered fits at the end of a reading and, if the reading is a first attempt, at its
beginning as well. -/
def Walked {α : Type} (input : Input) (attempt : Prop) (base : Nat) (begins ends : Phase)
    (s : State) (values : α → Int → Prop) (outcome : Except Failure α × State) : Prop :=
  Leaves s
    (fun a s' => values a s'.position ∧ Fits input s'.memory base ⟨s'.position, ends⟩ ∧
      (attempt → WalksTo input s'.memory base ⟨s.position, begins⟩ ⟨s'.position, ends⟩))
    (fun s' => attempt → Fits input s'.memory base ⟨s.position, begins⟩)
    outcome

namespace Walked

variable {attempt : Prop} {base : Nat} {begins ends between : Phase}

/-- A value that comes without anything new to remember. -/
theorem value
    {values : α → Int → Prop} {a : α} {s' : State} (same : s'.memory = s.memory)
    (forward : s.position ≤ s'.position) (holds : values a s'.position)
    (fits : Fits input s.memory base ⟨s'.position, ends⟩)
    (back : attempt → ∀ memory, Fits input memory base ⟨s'.position, ends⟩ →
      Fits input memory base ⟨s.position, begins⟩) :
    Walked input attempt base begins ends s values (.ok a, s') := by
  refine Leaves.value (adds_of_eq same) forward ⟨holds, same.symm ▸ fits, ?_⟩
  intro tried more _
  exact back tried _

theorem pure
    {values : α → Int → Prop} {a : α} (holds : values a s.position)
    (fits : Fits input s.memory base ⟨s.position, ends⟩) :
    Walked input attempt base ends ends s values ((Pure.pure a : Reading α) s) :=
  value rfl (Int.le_refl _) holds fits fun _ _ fits => fits

/-- A failure that comes without anything new to remember. -/
theorem failure
    {values : α → Int → Prop} {diagnostic : Diagnostic} {s' : State}
    (same : s'.memory = s.memory) (fits : Fits input s.memory base ⟨s.position, begins⟩) :
    Walked input attempt base begins ends s values (.error (.diagnostic diagnostic), s') :=
  .diagnostic (adds_of_eq same) fun _ => same.symm ▸ fits

theorem imp
    {values values' : α → Int → Prop} {outcome : Except Failure α × State}
    (walked : Walked input attempt base begins ends s values outcome)
    (weaker : ∀ a finish, s.position ≤ finish → values a finish → values' a finish) :
    Walked input attempt base begins ends s values' outcome :=
  Leaves.imp walked
    (fun a s' _ forward holds => ⟨weaker a s'.position forward holds.1, holds.2⟩)
    (fun _ _ holds => holds)

/-- The end alone. -/
theorem leaves
    {values : α → Int → Prop} {outcome : Except Failure α × State}
    (walked : Walked input attempt base begins ends s values outcome) :
    Leaves s (fun a s' => values a s'.position ∧ Fits input s'.memory base ⟨s'.position, ends⟩)
      (fun _ => True) outcome :=
  Leaves.imp walked (fun _ _ _ _ holds => ⟨holds.1, holds.2.1⟩) fun _ _ _ => trivial

/-- A walk may begin in another phase if every walk of that phase goes on in the first. -/
theorem begin
    {values : α → Int → Prop} {outcome : Except Failure α × State}
    (walked : Walked input attempt base between ends s values outcome)
    (back : ∀ memory, Fits input memory base ⟨s.position, between⟩ →
      Fits input memory base ⟨s.position, begins⟩) :
    Walked input attempt base begins ends s values outcome :=
  Leaves.imp walked
    (fun _ _ _ _ holds =>
      ⟨holds.1, holds.2.1, fun tried more behind fits => back _ (holds.2.2 tried more behind fits)⟩)
    (fun _ _ holds tried => back _ (holds tried))

theorem bind
    {values : α → Int → Prop} {values' : β → Int → Prop}
    {first : Reading α} {next : α → Reading β} [Keeps input first]
    (begun : Walked input attempt base begins between s values (first s))
    (continued : ∀ a s', Grows input s s' → s.position ≤ s'.position → values a s'.position →
      Fits input s'.memory base ⟨s'.position, between⟩ →
      Walked input attempt base between ends s' values' (next a s')) :
    Walked input attempt base begins ends s values' ((first >>= next) s) := by
  refine Leaves.bind input begun ?_
  rintro a s' grown adds forward ⟨holds, fits, walks⟩
  refine Leaves.imp (continued a s' grown forward holds fits) ?_ ?_
  · rintro b s'' ⟨added, memory, behind⟩ forwardRest ⟨holdsRest, fitsRest, walksRest⟩
    refine ⟨holdsRest, fitsRest, fun tried more later fitsMore => ?_⟩
    have walksMore := walksRest tried more later fitsMore
    dsimp only at later
    rw [memory, ← List.append_assoc] at walksMore ⊢
    refine walks tried (more ++ added) (List.forall_mem_append.mpr ⟨?_, behind⟩) walksMore
    exact fun entry member => Int.le_trans forwardRest (later entry member)
  · rintro s'' ⟨added, memory, behind⟩ fitsBetween tried
    have fitsMore := fitsBetween tried
    rw [memory] at fitsMore ⊢
    exact walks tried added behind fitsMore

private theorem changed
    {values : α → Int → Prop} {outcome : Except Failure α × State}
    (walked : Walked input attempt base begins ends s values outcome) (change : State → State)
    (position : ∀ s, (change s).position = s.position)
    (memory : ∀ s, (change s).memory = s.memory) :
    Walked input attempt base begins ends s values (outcome.1, change outcome.2) := by
  refine Leaves.changed walked change position memory ?_ ?_
  · intro a s' holds
    rw [position, memory]
    exact holds
  · intro s' fits
    rw [memory]
    exact fits

private theorem of_same
    {values : α → Int → Prop} {outcome : Except Failure α × State} {s' : State}
    (walked : Walked input attempt base begins ends s' values outcome)
    (position : s'.position = s.position) (memory : s'.memory = s.memory) :
    Walked input attempt base begins ends s values outcome := by
  unfold Walked at walked
  rw [position] at walked
  exact Leaves.of_later walked (Int.le_of_eq position.symm) memory

theorem withCalls
    {values : α → Int → Prop} {reading : Reading α} {calls : Bool}
    (walked : Walked input attempt base begins ends { s with calls := calls } values
      (reading { s with calls := calls })) :
    Walked input attempt base begins ends s values (Reading.withCalls calls reading s) := by
  have begun : Walked input attempt base begins ends s values
      (reading { s with calls := calls }) := walked.of_same rfl rfl
  exact begun.changed (fun after => { after with calls := s.calls }) (fun _ => rfl) fun _ => rfl

/-- A token is passed as a step of the walk tells. -/
theorem leaf
    (terminated : input.Terminated) {values : Node → Int → Prop} {symbols : List Symbol}
    {token : Token} (standing : input.At s.position symbols token) (notEnd : .endOfText ∉ symbols)
    (holds : values (.leaf token) (s.position + 1))
    (fits : Fits input s.memory base ⟨s.position + 1, ends⟩)
    (back : attempt → ∀ memory, Fits input memory base ⟨s.position + 1, ends⟩ →
      Fits input memory base ⟨s.position, begins⟩) :
    Walked input attempt base begins ends s values (Grammar.leaf input s) := by
  rw [leaf_of_at standing terminated notEnd]
  exact value rfl (Int.le_add_one (Int.le_refl _)) holds fits back

theorem refuse
    {values : α → Int → Prop} (wanted : String)
    (fits : Fits input s.memory base ⟨s.position, begins⟩) :
    Walked input attempt base begins ends s values ((Grammar.refuse input wanted : Reading α) s) := by
  rw [refuse_apply]
  cases input.tokenAt? s.position with
  | none => exact .misuse
  | some token => exact failure rfl fits

/-- A branch that is made is not too high. -/
theorem expressionRule
    (limited : input.settings.limited = true) {values : Node → Int → Prop} {symbol : Symbol}
    {children : List Node}
    (holds : (Node.rule symbol children).height ≤ heightLimit →
      values (.rule symbol children) s.position)
    (fits : Fits input s.memory base ⟨s.position, ends⟩) :
    Walked input attempt base ends ends s values
      (Grammar.expressionRule input symbol children s) := by
  rw [expressionRule_apply]
  split_ifs with exceeds
  · exact failure rfl fits
  · refine value rfl (Int.le_refl _) (holds ?_) fits fun _ _ fits => fits
    exact Nat.le_of_not_lt fun high => exceeds ⟨limited, high⟩

/-- A level that is entered is within the limit. -/
theorem nested
    (limited : input.settings.limited = true) {values : α → Int → Prop} {reading : Reading α}
    (fits : Fits input s.memory base ⟨s.position, begins⟩)
    (entered : s.nesting + 1 ≤ nestingLimit →
      Walked input attempt base begins ends s.deeper values (reading s.deeper)) :
    Walked input attempt base begins ends s values (Grammar.nested input reading s) := by
  by_cases crosses : input.Crosses s
  · cases ahead : input.tokenAt? s.position with
    | none =>
        rw [nested_of_crosses_none reading crosses ahead]
        exact .misuse
    | some token =>
        rw [nested_of_crosses reading crosses ahead]
        exact failure rfl fits
  · rw [nested_of_not_crosses reading crosses]
    have limit : s.nesting + 1 ≤ nestingLimit :=
      Int.not_lt.mp fun more => crosses ⟨limited, more⟩
    have begun : Walked input attempt base begins ends s values (reading s.deeper) :=
      (entered limit).of_same rfl rfl
    exact begun.changed State.shallower (fun _ => rfl) fun _ => rfl

end Walked

end RomanScript.Grammar
