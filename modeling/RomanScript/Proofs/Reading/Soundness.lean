import RomanScript.Proofs.Reading.Derivation
import RomanScript.Proofs.Reading.Growth

/-!
# What is read is derived

From every state whose remembered nodes were derived, each rule ends with a derivation that begins
at the position and ends at the new one, or with a diagnostic; it is never a misuse, since no
repetition runs out of steps. The settings play no part in this.
-/

namespace RomanScript.Grammar

open Reading

/-- Every remembered node is derived from where its rule began, if it is ever looked up. -/
def Faithful (input : Input) (starved : Int → Prop) (memory : List Remembered) : Prop :=
  input.settings.remembers = true →
    ∀ entry ∈ memory, ∀ node finish, entry.result = .ok (node, finish) →
      0 ≤ entry.start ∧ Reads input starved (.rule entry.symbol) entry.start [node] finish

structure Ready (input : Input) (starved : Int → Prop) (state : State) : Prop where
  nonneg : 0 ≤ state.position
  inside : state.position ≤ input.tokens.size
  faithful : Faithful input starved state.memory

/-- How a run may end, ready for the next reading: with a value or with a diagnostic. -/
inductive Ends {α : Type} (input : Input) (starved : Int → Prop) (values : α → Int → Prop) :
    Except Failure α × State → Prop
  | value {a : α} {s : State} :
      Ready input starved s → values a s.position → Ends input starved values (.ok a, s)
  | diagnostic {diagnostic : Diagnostic} {s : State} :
      Ready input starved s →
      Ends input starved values (.error (.diagnostic diagnostic), s)

/-- From position `least` on, what the reading gives is derived as a part of the grammar. -/
def Parses {α : Type} (input : Input) (starved : Int → Prop) (least : Int) (part : Bool → Part)
    (nodes : α → List Node) (reading : Reading α) : Prop :=
  ∀ s, Ready input starved s → least ≤ s.position →
    Ends input starved
      (fun a finish => Reads input starved (part s.calls) s.position (nodes a) finish) (reading s)

/-- Three expressions, one behind the other. -/
def ReadsOperands (input : Input) (starved : Int → Prop) (calls : Bool) (start : Int)
    (nodes : List Node) (finish : Int) : Prop :=
  ∃ condition consequence alternative second third,
    nodes = [condition, consequence, alternative] ∧
      Reads input starved (.expression calls) start [condition] second ∧
        Reads input starved (.expression calls) second [consequence] third ∧
          Reads input starved (.expression calls) third [alternative] finish

/-- From behind position `least` on, a conditional whose operands the reading of an expression cannot
read with calls starves there. -/
def StarvesBy (input : Input) (starved : Int → Prop) (least : Int) (expression : Reading Node) :
    Prop :=
  ∀ s, Ready input starved s → least < s.position →
    ∀ diagnostic after, operands expression true s = (.error (.diagnostic diagnostic), after) →
      starved s.position

/-- A conditional whose operands cannot be read with calls starves there. -/
def Starves (input : Input) (starved : Int → Prop) : Prop :=
  ∀ (levels : Nat) (s : State),
    Ready input starved s → input.tokens.size - s.position < (levels : Int) →
    ∀ diagnostic after,
      operands (expressionWithin input levels) true s = (.error (.diagnostic diagnostic), after) →
        starved s.position

variable {input : Input} {starved : Int → Prop} {α β : Type}

private theorem Starves.by (starves : Starves input starved) (levels : Nat) :
    StarvesBy input starved (input.tokens.size - levels) (expressionWithin input levels) :=
  fun s ready enough => starves levels s ready (by omega)

theorem Ready.start : Ready input starved State.start where
  nonneg := Int.le_refl 0
  inside := Int.natCast_nonneg _
  faithful _ _ member := absurd member List.not_mem_nil

theorem Ready.exists_token
    (terminated : input.Terminated) {s : State} (ready : Ready input starved s) :
    ∃ token, input.tokenAt? s.position = some token :=
  terminated.exists_token ready.nonneg

private theorem Ready.moved
    {s : State} (ready : Ready input starved s) {position : Int}
    (forward : s.position ≤ position) (inside : position ≤ input.tokens.size) :
    Ready input starved { s with position := position } :=
  ⟨Int.le_trans ready.nonneg forward, inside, ready.faithful⟩

theorem Ready.passed
    {s : State} (ready : Ready input starved s) {symbols : List Symbol} {token : Token}
    (standing : input.At s.position symbols token)
    (terminated : input.Terminated) (notEnd : .endOfText ∉ symbols) :
    Ready input starved { s with position := s.position + 1 } := by
  have bound := standing.lt_size terminated notEnd
  exact ready.moved (by omega) (by omega)

private theorem Ready.withCalls
    {s : State} (ready : Ready input starved s) (calls : Bool) :
    Ready input starved { s with calls := calls } :=
  ⟨ready.nonneg, ready.inside, ready.faithful⟩

private theorem Ready.visited
    {s : State} (ready : Ready input starved s) (symbol : Symbol) :
    Ready input starved { s with visits := (symbol, s.position) :: s.visits } :=
  ⟨ready.nonneg, ready.inside, ready.faithful⟩

theorem Ends.imp
    {values values' : α → Int → Prop} {outcome : Except Failure α × State}
    (weaker : ∀ a finish, values a finish → values' a finish)
    (ended : Ends input starved values outcome) :
    Ends input starved values' outcome := by
  cases ended with
  | value ready holds => exact .value ready (weaker _ _ holds)
  | diagnostic ready => exact .diagnostic ready

/-- However a run ends, the next reading can begin. -/
theorem Ends.ready
    {values : α → Int → Prop} {outcome : Except Failure α × State}
    (ended : Ends input starved values outcome) : Ready input starved outcome.2 := by
  cases ended with
  | value ready => exact ready
  | diagnostic ready => exact ready

theorem Ends.bind
    {values : α → Int → Prop} {values' : β → Int → Prop}
    {first : Reading α} {next : α → Reading β} [Keeps input first] {s : State}
    (begun : Ends input starved values (first s))
    (continued : ∀ a s', Ready input starved s' → s'.calls = s.calls → values a s'.position →
      Ends input starved values' (next a s')) :
    Ends input starved values' ((first >>= next) s) := by
  have grown : Grows input s (first s).2 := Keeps.grows s
  rw [bind_apply]
  generalize first s = outcome at begun grown ⊢
  cases begun with
  | value ready holds => exact continued _ _ ready grown.calls holds
  | diagnostic ready => exact .diagnostic ready

theorem Ends.pure
    {values : α → Int → Prop} {a : α} {s : State}
    (ready : Ready input starved s) (holds : values a s.position) :
    Ends input starved values ((Pure.pure a : Reading α) s) :=
  .value ready holds

/-- Only the position and the memory matter for how a run has ended. -/
theorem Ends.changed
    {values : α → Int → Prop} {outcome : Except Failure α × State}
    (ended : Ends input starved values outcome) (change : State → State)
    (position : ∀ s, (change s).position = s.position)
    (memory : ∀ s, (change s).memory = s.memory) :
    Ends input starved values (outcome.1, change outcome.2) := by
  have changed : ∀ s, Ready input starved s → Ready input starved (change s) := fun s ready =>
    ⟨position s ▸ ready.nonneg, position s ▸ ready.inside, memory s ▸ ready.faithful⟩
  cases ended with
  | value ready holds =>
      refine .value (changed _ ready) ?_
      rw [position]
      exact holds
  | diagnostic ready => exact .diagnostic (changed _ ready)

private theorem Ends.withCalls
    {values : α → Int → Prop} {reading : Reading α} {calls : Bool} {s : State}
    (ended : Ends input starved values (reading { s with calls := calls })) :
    Ends input starved values (Reading.withCalls calls reading s) :=
  ended.changed (fun after => { after with calls := s.calls }) (fun _ => rfl) (fun _ => rfl)

/-- What begins again does so ready, and only because the first attempt failed. -/
theorem Ends.orElseAgain
    {values : α → Int → Prop} {first again : Reading α} [Keeps input first] {s : State}
    (ready : Ready input starved s)
    (begun : Ends input starved values (first s))
    (retried : ∀ s', Ready input starved s' → s'.position = s.position → s'.calls = s.calls →
      (∃ diagnostic after, first s = (.error (.diagnostic diagnostic), after)) →
      Ends input starved values (again s')) :
    Ends input starved values (Reading.orElseAgain first again s) := by
  have grown : Grows input s (first s).2 := Keeps.grows s
  unfold Reading.orElseAgain
  generalize failed : first s = outcome at begun grown ⊢
  cases begun with
  | value readyAfter holds => exact .value readyAfter holds
  | @diagnostic diagnostic after readyAfter =>
      have later := retried { after with position := s.position }
        ⟨ready.nonneg, ready.inside, readyAfter.faithful⟩ rfl grown.calls ⟨diagnostic, after, failed⟩
      dsimp only [retry]
      generalize again { after with position := s.position } = outcome at later ⊢
      cases later with
      | value readyLast holds => exact .value readyLast holds
      | diagnostic readyLast => exact .diagnostic readyLast

private theorem Ends.leaf
    (terminated : input.Terminated) {values : Node → Int → Prop} {symbols : List Symbol}
    {token : Token} {s : State} (ready : Ready input starved s)
    (standing : input.At s.position symbols token) (notEnd : .endOfText ∉ symbols)
    (holds : values (.leaf token) (s.position + 1)) :
    Ends input starved values (Grammar.leaf input s) := by
  have bound := standing.lt_size terminated notEnd
  rw [leaf_of_at standing terminated notEnd]
  exact .value (ready.moved (by omega) (by omega)) holds

/-- Any token ahead is taken, and passed unless the position is behind the end. -/
theorem Ends.token
    (terminated : input.Terminated) {s : State} (ready : Ready input starved s) :
    Ends input starved
      (fun node finish => ∃ token, input.tokenAt? s.position = some token ∧ node = .leaf token ∧
        s.position ≤ finish ∧ (s.position < input.tokens.size → finish = s.position + 1))
      (Grammar.leaf input s) := by
  obtain ⟨token, ahead⟩ := ready.exists_token terminated
  rw [leaf_apply, ahead]
  dsimp only [Input.advanced]
  split
  · exact .value (ready.moved (by omega) (by omega))
      ⟨token, rfl, rfl, Int.le_add_one (Int.le_refl _), fun _ => rfl⟩
  · exact .value ready ⟨token, rfl, rfl, Int.le_refl _, fun inside => by omega⟩

theorem Ends.ifSees
    (terminated : input.Terminated) {values : α → Int → Prop} {symbols : List Symbol}
    {first other : Reading α} {s : State} (ready : Ready input starved s)
    (seen : ∀ token, input.At s.position symbols token → Ends input starved values (first s))
    (unseen : ¬ input.Ahead symbols s.position → Ends input starved values (other s)) :
    Ends input starved values
      ((sees input symbols >>= fun found => if found = true then first else other) s) := by
  obtain ⟨token, ahead⟩ := ready.exists_token terminated
  rw [ifSees_apply, ahead]
  dsimp only
  by_cases member : token.symbol ∈ symbols
  · rw [if_pos member]
    exact seen token ⟨ahead, member⟩
  · rw [if_neg member]
    exact unseen (not_ahead_of_tokenAt? input ahead member)

private theorem Ends.ifSeesCall
    (terminated : input.Terminated) {values : α → Int → Prop}
    {first other : Reading α} {s : State} (ready : Ready input starved s)
    (seen : ∀ token, s.calls = true → input.At s.position [.identifier] token →
      input.Ahead atomStart (s.position + 1) → Ends input starved values (first s))
    (unseen : (s.calls = true → input.Ahead [.identifier] s.position →
      ¬ input.Ahead atomStart (s.position + 1)) → Ends input starved values (other s)) :
    Ends input starved values
      ((seesCall input >>= fun found => if found = true then first else other) s) := by
  obtain ⟨token, ahead⟩ := ready.exists_token terminated
  have next : 0 ≤ s.position + 1 := Int.le_add_one ready.nonneg
  obtain ⟨behind, aheadBehind⟩ := terminated.exists_token next
  rw [bind_apply, seesCall_apply, ahead, aheadBehind]
  dsimp only
  by_cases calls : s.calls = true
  · by_cases name : token.symbol = .identifier
    · rw [if_pos calls, if_pos name]
      dsimp only
      by_cases member : behind.symbol ∈ atomStart
      · rw [if_pos (by simpa using member)]
        exact seen token calls ⟨ahead, List.mem_singleton.mpr name⟩ ⟨behind, aheadBehind, member⟩
      · rw [if_neg (by simpa using member)]
        exact unseen fun _ _ => not_ahead_of_tokenAt? input aheadBehind member
    · rw [if_pos calls, if_neg name]
      have noName : ¬ input.Ahead [.identifier] s.position :=
        not_ahead_of_tokenAt? input ahead (by simpa using name)
      exact unseen fun _ isName => absurd isName noName
  · rw [if_neg calls]
    exact unseen fun absurd => (calls absurd).elim

theorem Ends.refuse
    (terminated : input.Terminated) {values : α → Int → Prop} (wanted : String) {s : State}
    (ready : Ready input starved s) :
    Ends input starved values ((Grammar.refuse input wanted : Reading α) s) := by
  obtain ⟨token, ahead⟩ := ready.exists_token terminated
  rw [refuse_apply, ahead]
  exact .diagnostic ready

theorem Ends.expect
    (terminated : input.Terminated) {symbol : Symbol} (notEnd : symbol ≠ .endOfText) {s : State}
    (ready : Ready input starved s) :
    Ends input starved
      (fun node finish => ∃ token, input.At s.position [symbol] token ∧
        node = .leaf token ∧ finish = s.position + 1)
      (Grammar.expect input symbol s) := by
  refine .ifSees terminated ready (fun token standing => ?_) (fun _ => ?_)
  · exact .leaf terminated ready standing (by simpa using notEnd.symm) ⟨token, standing, rfl, rfl⟩
  · exact .refuse terminated _ ready

private theorem Ends.expressionRule
    {values : Node → Int → Prop} {symbol : Symbol} {children : List Node} {s : State}
    (ready : Ready input starved s) (holds : values (.rule symbol children) s.position) :
    Ends input starved values (Grammar.expressionRule input symbol children s) := by
  rw [expressionRule_apply]
  split
  · exact .diagnostic ⟨ready.nonneg, ready.inside, ready.faithful⟩
  · exact .value ready holds

private theorem Ends.nested
    (terminated : input.Terminated) {values : α → Int → Prop} {reading : Reading α} {s : State}
    (ready : Ready input starved s) (ended : Ends input starved values (reading s.deeper)) :
    Ends input starved values (Grammar.nested input reading s) := by
  by_cases crosses : input.Crosses s
  · obtain ⟨token, ahead⟩ := ready.exists_token terminated
    rw [nested_of_crosses reading crosses ahead]
    exact .diagnostic ⟨ready.nonneg, ready.inside, ready.faithful⟩
  · rw [nested_of_not_crosses reading crosses]
    exact ended.changed State.shallower (fun _ => rfl) (fun _ => rfl)

private theorem Faithful.cons
    {memory : List Remembered} {entry : Remembered} (faithful : Faithful input starved memory)
    (derived : ∀ node finish, entry.result = .ok (node, finish) →
      0 ≤ entry.start ∧ Reads input starved (.rule entry.symbol) entry.start [node] finish) :
    Faithful input starved (entry :: memory) := by
  intro remembers other member
  rcases List.mem_cons.mp member with rfl | older
  · exact derived
  · exact faithful remembers other older

/-- A result that is recalled was derived when it was remembered. -/
theorem Ends.remembering
    (terminated : input.Terminated) {symbol : Symbol} {body : Reading Node} {s : State}
    (ready : Ready input starved s)
    (ended : Ends input starved
      (fun node finish => Reads input starved (.rule symbol) s.position [node] finish) (body s)) :
    Ends input starved
      (fun node finish => Reads input starved (.rule symbol) s.position [node] finish)
      (Grammar.remembering input symbol body s) := by
  unfold Grammar.remembering
  split
  · rename_i result recalls
    obtain ⟨remembers, entry, member, isSymbol, isStart, remembered⟩ :=
      exists_entry_of_recall recalls
    cases result with
    | error diagnostic => exact .diagnostic ready
    | ok value =>
        obtain ⟨node, finish⟩ := value
        obtain ⟨_, derived⟩ := ready.faithful remembers entry member node finish remembered
        rw [isSymbol, isStart] at derived
        have moves := derived.progress terminated ready.inside
        exact .value (ready.moved moves.1 moves.2.1) derived
  · generalize body s = outcome at ended ⊢
    cases ended with
    | value readyAfter derived =>
        refine .value ⟨readyAfter.nonneg, readyAfter.inside, ?_⟩ derived
        refine readyAfter.faithful.cons ?_
        rintro node finish ⟨⟩
        exact ⟨ready.nonneg, derived⟩
    | diagnostic readyAfter =>
        refine .diagnostic ⟨readyAfter.nonneg, readyAfter.inside, readyAfter.faithful.cons ?_⟩
        rintro node finish ⟨⟩

/-! ## Expressions -/

theorem ends_operands
    (terminated : input.Terminated) {least : Int} {expression : Reading Node}
    [Keeps input expression]
    (expressions : Parses input starved least .expression (fun node => [node]) expression)
    (calls : Bool) {s : State} (ready : Ready input starved s) (enough : least ≤ s.position) :
    Ends input starved (ReadsOperands input starved calls s.position)
      (Grammar.operands expression calls s) := by
  unfold Grammar.operands
  refine .withCalls ?_
  refine .bind (expressions _ (ready.withCalls calls) enough) ?_
  intro condition second readySecond callsSecond first
  have firstMoves := first.progress terminated ready.inside
  refine .bind (expressions _ readySecond (Int.le_trans enough firstMoves.1)) ?_
  intro consequence third readyThird callsThird middle
  have middleMoves := middle.progress terminated readySecond.inside
  refine .bind (expressions _ readyThird
    (Int.le_trans enough (Int.le_trans firstMoves.1 middleMoves.1))) ?_
  intro alternative last readyLast _ final
  rw [callsSecond] at middle
  rw [callsThird, callsSecond] at final
  exact .pure readyLast ⟨condition, consequence, alternative, _, _, rfl, first, middle, final⟩

private theorem ends_chainWithin
    (terminated : input.Terminated) (tier : Tier) {operand : Reading Node} [Keeps input operand]
    {least : Int} (operands : Parses input starved least tier.operand (fun node => [node]) operand)
    (steps : Nat) (left : Node) {s : State} (ready : Ready input starved s)
    (enough : least ≤ s.position)
    (enoughSteps : input.tokens.size - s.position < (steps : Int)) :
    Ends input starved
      (fun node finish => Reads input starved (.rest tier s.calls left) s.position [node] finish)
      (Grammar.chainWithin input tier.symbol tier.operators operand steps left s) := by
  have notEnd : .endOfText ∉ tier.operators := by cases tier <;> decide
  induction steps generalizing left s with
  | zero =>
      have inside := ready.inside
      omega
  | succ steps inductionHypothesis =>
      unfold Grammar.chainWithin
      refine .ifSees terminated ready (fun operator standing => ?_) fun none => ?_
      · rw [bind_apply_ok (leaf_of_at standing terminated notEnd)]
        have passed := ready.passed standing terminated notEnd
        refine .bind (operands _ passed (by dsimp only; omega)) ?_
        intro right behind readyBehind callsBehind derivedRight
        have moves := derivedRight.progress terminated passed.inside
        dsimp only at moves callsBehind
        have made : Ends input starved
            (fun node finish => node = .rule tier.symbol [left, .leaf operator, right] ∧
              finish = behind.position)
            (expressionRule input tier.symbol [left, .leaf operator, right] behind) :=
          .expressionRule readyBehind ⟨rfl, rfl⟩
        refine .bind made ?_
        rintro _ joined readyJoined callsJoined ⟨rfl, samePosition⟩
        have rest := inductionHypothesis (.rule tier.symbol [left, .leaf operator, right])
          readyJoined (by omega) (by omega)
        rw [callsJoined, callsBehind, samePosition] at rest
        exact rest.imp fun _ _ derivedRest => .moreRest standing derivedRight derivedRest
      · exact .pure ready (.noRest none)

private theorem parses_chain
    (terminated : input.Terminated) (tier : Tier) {operand : Reading Node} [Keeps input operand]
    {least : Int}
    (operands : Parses input starved least tier.operand (fun node => [node]) operand) :
    Parses input starved least (.chain tier) (fun node => [node])
      (Grammar.chain input tier.symbol tier.operators operand) := by
  intro s ready enough
  unfold Grammar.chain
  refine .bind (operands s ready enough) ?_
  intro first behind readyBehind callsBehind derivedFirst
  have moves := derivedFirst.progress terminated ready.inside
  have rest := ends_chainWithin terminated tier operands (input.budget behind) first
    readyBehind (by omega) (by dsimp only [Input.budget]; omega)
  rw [callsBehind] at rest
  exact rest.imp fun _ _ derivedRest => .chain derivedFirst derivedRest

section Expressions

variable {least : Int} {expression : Reading Node} [Keeps input expression]
    (terminated : input.Terminated)
    (expressions : Parses input starved (least + 1) .expression (fun node => [node]) expression)

include terminated expressions

/-- What is read behind an opening parenthesis is derived as a group. -/
theorem ends_group
    {s : State} (ready : Ready input starved s) (enough : least ≤ s.position)
    (moves : s.position < input.tokens.size ∨ least < s.position) :
    Ends input starved
      (fun node finish => input.Ahead [.openParen] s.position →
        Reads input starved (.rule .group) s.position [node] finish)
      (Grammar.group input expression s) := by
  unfold Grammar.group
  rw [visit_bind]
  refine .bind (.token terminated (ready.visited .group)) ?_
  rintro _ passed readyPassed _ ⟨opening, ahead, rfl, atLeast, next⟩
  dsimp only at atLeast next
  refine .bind (.withCalls (expressions _ (readyPassed.withCalls true) ?_)) ?_
  · dsimp only
    omega
  intro inner behind readyBehind _ inside
  refine .bind (.expect terminated (by decide) readyBehind) ?_
  rintro _ last readyLast _ ⟨closing, standingBehind, rfl, isNext⟩
  refine .expressionRule readyLast ?_
  rintro ⟨token, standing⟩
  cases ahead.symm.trans standing.1
  rw [next (standing.lt_size terminated (by decide))] at inside
  rw [isNext]
  exact .group standing inside standingBehind

theorem parses_atom :
    Parses input starved least (fun _ => .atom) (fun node => [node])
      (Grammar.atom input expression) := by
  intro s ready enough
  unfold Grammar.atom
  refine .ifSees terminated ready (fun token standing => ?_) fun _ => ?_
  · exact .leaf terminated ready standing (by decide) (.leafAtom standing)
  refine .ifSees terminated ready (fun token standing => ?_) fun _ => ?_
  · have bound := standing.lt_size terminated (by decide)
    have body := ends_group terminated expressions ready enough (.inl bound)
    have derived := body.imp fun _ _ derived => derived ⟨token, standing⟩
    exact (derived.remembering terminated ready).imp fun _ _ derived => .groupAtom derived
  · exact .refuse terminated _ ready

private theorem ends_atoms
    (steps : Nat) {s : State} (ready : Ready input starved s)
    (enough : least ≤ s.position)
    (enoughSteps : input.tokens.size - s.position < (steps : Int)) :
    Ends input starved (Reads input starved .atoms s.position)
      (Grammar.atoms input expression steps s) := by
  induction steps generalizing s with
  | zero =>
      have inside := ready.inside
      omega
  | succ steps inductionHypothesis =>
      unfold Grammar.atoms
      refine .ifSees terminated ready (fun token standing => ?_) fun none => ?_
      · refine .bind (parses_atom terminated expressions s ready enough) ?_
        intro first behind readyBehind _ derivedFirst
        have moves := derivedFirst.progress terminated ready.inside
        have forward := moves.2.2 trivial
        refine .bind (inductionHypothesis readyBehind (by omega) (by omega)) ?_
        intro rest last readyLast _ derivedRest
        exact .pure readyLast (.moreAtoms derivedFirst derivedRest)
      · exact .pure ready (.noAtoms none)

/-- What is read behind the keyword of a conditional is derived as one. -/
theorem ends_conditional
    (starves : StarvesBy input starved least expression)
    {s : State} (ready : Ready input starved s) (enough : least ≤ s.position)
    (moves : s.position < input.tokens.size ∨ least < s.position) :
    Ends input starved
      (fun node finish => input.Ahead [.keyword .choose] s.position →
        Reads input starved (.rule .conditional) s.position [node] finish)
      (Grammar.conditional input expression s) := by
  unfold Grammar.conditional
  rw [visit_bind]
  refine .bind (.token terminated (ready.visited .conditional)) ?_
  rintro _ passed readyPassed - ⟨keyword, ahead, rfl, atLeast, next⟩
  dsimp only at atLeast next
  have behind : least + 1 ≤ passed.position := by omega
  have greedy := ends_operands terminated expressions true readyPassed behind
  have attempts : Ends input starved
      (fun nodes finish => ∃ calls, (calls = false → starved passed.position) ∧
        ReadsOperands input starved calls passed.position nodes finish)
      (orElseAgain (operands expression true) (operands expression false) passed) := by
    refine .orElseAgain readyPassed (greedy.imp fun nodes finish derived => ?_) ?_
    · exact ⟨true, nofun, derived⟩
    rintro s' ready' samePosition - ⟨diagnostic, after, failed⟩
    have hungry := starves passed readyPassed behind diagnostic after failed
    have behind' : least + 1 ≤ s'.position := by
      rw [samePosition]
      exact behind
    refine (ends_operands terminated expressions false ready' behind').imp ?_
    intro nodes finish derived
    rw [samePosition] at derived
    exact ⟨false, fun _ => hungry, derived⟩
  refine .bind attempts ?_
  rintro nodes last readyLast - ⟨calls, hungry, operands⟩
  obtain ⟨_, _, _, _, _, rfl, first, middle, final⟩ := operands
  refine .expressionRule readyLast ?_
  rintro ⟨token, standing⟩
  cases ahead.symm.trans standing.1
  rw [next (standing.lt_size terminated (by decide))] at first hungry
  exact .conditional standing first middle final hungry

private theorem ends_call
    {s : State} {callee : Token} (ready : Ready input starved s)
    (enough : least ≤ s.position)
    (standing : input.At s.position [.identifier] callee)
    (argument : input.Ahead atomStart (s.position + 1)) :
    Ends input starved
      (fun node finish => Reads input starved (.term true) s.position [node] finish)
      (Grammar.call input expression s) := by
  unfold Grammar.call
  rw [bind_apply_ok (leaf_of_at standing terminated (by decide))]
  have passed := ready.passed standing terminated (by decide)
  have arguments := ends_atoms terminated expressions
    (input.budget { s with position := s.position + 1 }) passed
    (by dsimp only; omega) (by dsimp only [Input.budget]; omega)
  refine .bind arguments ?_
  intro nodes behind readyBehind _ derived
  exact .expressionRule readyBehind (.call standing argument derived)

theorem parses_term
    (starves : StarvesBy input starved least expression) :
    Parses input starved least .term (fun node => [node]) (Grammar.term input expression) := by
  intro s ready enough
  unfold Grammar.term
  refine .ifSees terminated ready (fun keyword standing => ?_) fun _ => ?_
  · have bound := standing.lt_size terminated (by decide)
    have body := ends_conditional terminated expressions starves ready enough (.inl bound)
    have derived := body.imp fun _ _ derived => derived ⟨keyword, standing⟩
    exact (derived.remembering terminated ready).imp fun _ _ derived => .conditionalTerm derived
  refine .ifSeesCall terminated ready (fun callee calls standing argument => ?_) fun alone => ?_
  · rw [calls]
    exact ends_call terminated expressions ready enough standing argument
  · exact (parses_atom terminated expressions s ready enough).imp
      fun _ _ derived => .atomTerm derived alone

private theorem ends_signedWithin
    (starves : StarvesBy input starved least expression) (steps : Nat)
    {s : State} (ready : Ready input starved s)
    (enough : least ≤ s.position)
    (enoughSteps : input.tokens.size - s.position < (steps : Int)) :
    Ends input starved
      (fun node finish => Reads input starved (.signed s.calls) s.position [node] finish)
      (Grammar.signedWithin input expression steps s) := by
  induction steps generalizing s with
  | zero =>
      have inside := ready.inside
      omega
  | succ steps inductionHypothesis =>
      unfold Grammar.signedWithin
      refine .ifSees terminated ready (fun token standing => ?_) fun none => ?_
      · rw [bind_apply_ok (leaf_of_at standing terminated (by decide))]
        have passed := ready.passed standing terminated (by decide)
        refine .nested terminated passed ?_
        have deeper : Ready input starved { s with position := s.position + 1 }.deeper :=
          ⟨passed.nonneg, passed.inside, passed.faithful⟩
        refine .bind (inductionHypothesis deeper
          (by dsimp only [State.deeper]; omega) (by dsimp only [State.deeper]; omega)) ?_
        intro operand behind readyBehind _ derived
        exact .expressionRule readyBehind (.sign standing derived)
      · exact (parses_term terminated expressions starves s ready enough).imp
          fun _ _ derived => .unsigned none derived

theorem parses_signed
    (starves : StarvesBy input starved least expression) :
    Parses input starved least .signed (fun node => [node]) (Grammar.signed input expression) :=
  fun s ready enough => ends_signedWithin terminated expressions starves (input.budget s) ready
    enough (by dsimp only [Input.budget]; omega)

theorem parses_product
    (starves : StarvesBy input starved least expression) :
    Parses input starved least (.chain .product) (fun node => [node])
      (Grammar.product input expression) :=
  parses_chain terminated .product (parses_signed terminated expressions starves)

theorem parses_sum
    (starves : StarvesBy input starved least expression) :
    Parses input starved least .expression (fun node => [node]) (Grammar.sum input expression) :=
  parses_chain terminated .sum (parses_product terminated expressions starves)

end Expressions

theorem parses_expressionWithin
    (terminated : input.Terminated) (starves : Starves input starved) (levels : Nat) :
    Parses input starved (input.tokens.size - levels + 1) .expression (fun node => [node])
      (expressionWithin input levels) := by
  induction levels with
  | zero =>
      intro s ready enough
      have inside := ready.inside
      omega
  | succ levels inductionHypothesis =>
      intro s ready enough
      have sum := parses_sum terminated inductionHypothesis (starves.by levels)
      have deeper : Ready input starved s.deeper := ⟨ready.nonneg, ready.inside, ready.faithful⟩
      exact .nested terminated ready (sum s.deeper deeper (by dsimp only [State.deeper]; omega))

theorem parses_wholeExpression
    (terminated : input.Terminated) (starves : Starves input starved) :
    Parses input starved 0 .expression (fun node => [node]) (wholeExpression input) :=
  fun s ready _ => parses_expressionWithin terminated starves (input.budget s) s ready
    (by dsimp only [Input.budget]; omega)

end RomanScript.Grammar
