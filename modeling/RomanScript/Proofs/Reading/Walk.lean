import Mathlib.Logic.Relation
import RomanScript.Proofs.Node.Levels
import RomanScript.Proofs.Reading.Derivation

/-!
# Walks past remembered results

A group or a conditional that is recalled was read before, perhaps on another level. To see that it
was not on a deeper one now, follow the tokens from a place in all ways in which readings may still
pass them, and take what is remembered in one step: on the way every remembered node respects the
limits, and the walk does not leave behind anything that is remembered.

The place tells what is to be read next and on which level. Calls are walked as if they were
recognised, for a reading without calls finds the same nodes as operands, on no deeper level.
-/

namespace RomanScript.Grammar

/-- What follows at a place: a term on a level, more arguments of a call on a level, or what comes
behind a term. -/
inductive Phase where
  | fresh (level : Nat)
  | call (level : Nat)
  | done

structure Place where
  position : Int
  phase : Phase

def binary : List Symbol := [.plus, .minus, .times, .divide]

theorem Tier.operators_binary (tier : Tier) :
    ∀ symbol ∈ tier.operators, symbol ∈ binary := by
  cases tier <;> decide

def recallFrom (memory : List Remembered) (symbol : Symbol) (start : Int) :
    Option (Except Diagnostic (Node × Int)) :=
  (memory.find? fun entry => entry.symbol == symbol && entry.start == start).map (·.result)

def Before (memory : List Remembered) (position : Int) : Prop :=
  ∀ entry ∈ memory, entry.start < position

/-- A rule whose results are remembered begins at a position, as its first token tells. -/
inductive Opens (input : Input) : Symbol → Int → Prop
  | group {position : Int} :
      input.Ahead [.openParen] position → Opens input .group position
  | conditional {position : Int} :
      input.Ahead [.keyword .choose] position → Opens input .conditional position

/-- One step of a walk in an expression whose own level is `base`. -/
inductive Goes (input : Input) (memory : List Remembered) (base : Nat) : Place → Place → Prop
  | sign {position : Int} {level next : Nat} :
      input.Ahead [.plus, .minus] position → next ≤ level + 1 →
      Goes input memory base ⟨position, .fresh level⟩ ⟨position + 1, .fresh next⟩
  | leaf {position : Int} {level : Nat} :
      input.Ahead [.numeral, .keyword .input] position →
      Goes input memory base ⟨position, .fresh level⟩ ⟨position + 1, .done⟩
  | name {position : Int} {level next : Nat} :
      input.Ahead [.identifier] position → next ≤ level →
      Goes input memory base ⟨position, .fresh level⟩ ⟨position + 1, .call next⟩
  | recalled {position finish : Int} {level : Nat} {symbol : Symbol} {node : Node} :
      Opens input symbol position →
      recallFrom memory symbol position = some (.ok (node, finish)) →
      Goes input memory base ⟨position, .fresh level⟩ ⟨finish, .done⟩
  | argument {position : Int} {level next : Nat} :
      input.Ahead [.numeral, .identifier, .keyword .input] position → next ≤ level →
      Goes input memory base ⟨position, .call level⟩ ⟨position + 1, .call next⟩
  | recalledArgument {position finish : Int} {level next : Nat} {node : Node} :
      Opens input .group position →
      recallFrom memory .group position = some (.ok (node, finish)) → next ≤ level →
      Goes input memory base ⟨position, .call level⟩ ⟨finish, .call next⟩
  | called {position : Int} {level : Nat} :
      Goes input memory base ⟨position, .call level⟩ ⟨position, .done⟩
  | operator {position : Int} {next : Nat} :
      input.Ahead binary position → next ≤ base →
      Goes input memory base ⟨position, .done⟩ ⟨position + 1, .fresh next⟩
  | operand {position : Int} {next : Nat} :
      ¬ input.Ahead binary position → next ≤ base →
      Goes input memory base ⟨position, .done⟩ ⟨position, .fresh next⟩

/-- What is remembered for a rule at a position respects the limits on a level and moves on. -/
def Respects (memory : List Remembered) (symbol : Symbol) (position : Int) (level : Nat) : Prop :=
  ∀ node finish, recallFrom memory symbol position = some (.ok (node, finish)) →
    node.Within level ∧ position < finish

/-- A walk can go on from a position, or it rightly ends there: at a result that is remembered, or
before anything was. -/
def Passes (input : Input) (memory : List Remembered) (position : Int) : Prop :=
  input.Ahead [.plus, .minus, .numeral, .identifier, .keyword .input] position ∨
    (∃ symbol, Opens input symbol position ∧
      (recallFrom memory symbol position).isSome) ∨
    Before memory position

/-- What is remembered at a place may be recalled there. -/
def Sound (input : Input) (memory : List Remembered) : Place → Prop
  | ⟨position, .fresh level⟩ =>
    (∀ symbol, Opens input symbol position → Respects memory symbol position level) ∧
      Passes input memory position
  | ⟨position, .call level⟩ =>
    Opens input .group position → Respects memory .group position level
  | ⟨_, .done⟩ => True

/-- What is remembered may be recalled all along the walks from a place. -/
def Fits (input : Input) (memory : List Remembered) (base : Nat) (place : Place) : Prop :=
  ∀ reached, Relation.ReflTransGen (Goes input memory base) place reached →
    Sound input memory reached

variable {input : Input} {memory : List Remembered} {base level : Nat} {position : Int}

theorem Fits.sound {place : Place} (fits : Fits input memory base place) :
    Sound input memory place :=
  fits place .refl

theorem Fits.goes
    {place next : Place} (fits : Fits input memory base place)
    (step : Goes input memory base place next) :
    Fits input memory base next :=
  fun reached walk => fits reached (.head step walk)

private theorem fits_of_step
    {place : Place} (sound : Sound input memory place)
    (steps : ∀ next, Goes input memory base place next → Fits input memory base next) :
    Fits input memory base place := by
  intro reached walk
  rcases Relation.ReflTransGen.cases_head walk with rfl | ⟨next, step, rest⟩
  · exact sound
  · exact steps next step reached rest

/-- What a step keeps and what makes a place sound holds all along a walk. -/
theorem fits_of_invariant
    {place : Place} (invariant : Place → Prop)
    (sound : ∀ place, invariant place → Sound input memory place)
    (steps : ∀ place next, invariant place → Goes input memory base place next → invariant next)
    (begins : invariant place) :
    Fits input memory base place := by
  intro reached walk
  refine sound reached ?_
  induction walk with
  | refl => exact begins
  | tail _ step holds => exact steps _ _ holds step

theorem recallFrom_eq_none_of_before
    (before : Before memory position) (symbol : Symbol) :
    recallFrom memory symbol position = none := by
  rw [recallFrom, Option.map_eq_none_iff, List.find?_eq_none]
  intro entry member found
  have here : entry.symbol = symbol ∧ entry.start = position := by simpa using found
  have earlier := before entry member
  omega

theorem Before.mono
    {later : Int} (before : Before memory position) (forward : position ≤ later) :
    Before memory later :=
  fun entry member => Int.lt_of_lt_of_le (before entry member) forward

/-- Nothing is recalled behind all that is remembered. -/
theorem fits_of_before
    {place : Place} (before : Before memory place.position) :
    Fits input memory base place := by
  refine fits_of_invariant (fun place => Before memory place.position) ?_ ?_ before
  · rintro ⟨position, phase⟩ before
    have unread := recallFrom_eq_none_of_before before
    cases phase with
    | fresh level =>
        refine ⟨fun symbol _ node finish recalls => ?_, .inr (.inr before)⟩
        rw [unread symbol] at recalls
        cases recalls
    | call level =>
        intro _ node finish recalls
        rw [unread .group] at recalls
        cases recalls
    | done => trivial
  · intro place next before step
    have unread := recallFrom_eq_none_of_before before
    cases step with
    | sign | leaf | name | argument | operator => exact before.mono (by dsimp only; omega)
    | called | operand => exact before
    | @recalled position finish level symbol node _ recalls =>
        rw [unread symbol] at recalls
        cases recalls
    | @recalledArgument position finish level next node _ recalls =>
        rw [unread .group] at recalls
        cases recalls

private theorem Goes.forward
    {place next : Place} (step : Goes input memory base place next)
    (sound : Sound input memory place) :
    place.position ≤ next.position := by
  cases step with
  | sign | leaf | name | argument | operator => exact Int.le_add_one (Int.le_refl _)
  | called | operand => exact Int.le_refl _
  | @recalled position finish level symbol node ahead recalls =>
      exact Int.le_of_lt (sound.1 symbol ahead node finish recalls).2
  | @recalledArgument position finish level next node ahead recalls _ =>
      exact Int.le_of_lt (sound ahead node finish recalls).2

/-- An entry that begins elsewhere does not change what is recalled. -/
theorem recallFrom_cons_of_ne
    {entry : Remembered} (elsewhere : entry.start ≠ position) (symbol : Symbol) :
    recallFrom (entry :: memory) symbol position = recallFrom memory symbol position := by
  unfold recallFrom
  rw [List.find?_cons_of_neg]
  simp [elsewhere]

/-- An entry before a place matters no more. -/
theorem Fits.cons
    {place : Place} (fits : Fits input memory base place) {entry : Remembered}
    (earlier : entry.start < place.position) :
    Fits input (entry :: memory) base place := by
  refine fits_of_invariant
    (fun place => Fits input memory base place ∧ entry.start < place.position) ?_ ?_ ⟨fits, earlier⟩
  · rintro ⟨position, phase⟩ ⟨fits, earlier⟩
    have same : ∀ symbol,
        recallFrom (entry :: memory) symbol position = recallFrom memory symbol position :=
      recallFrom_cons_of_ne (Int.ne_of_lt earlier)
    have sound := fits.sound
    cases phase with
    | fresh level =>
        refine ⟨fun symbol ahead node finish recalls => ?_, ?_⟩
        · rw [same symbol] at recalls
          exact sound.1 symbol ahead node finish recalls
        · rcases sound.2 with passed | ⟨symbol, ahead, found⟩ | before
          · exact .inl passed
          · exact .inr (.inl ⟨symbol, ahead, (same symbol).symm ▸ found⟩)
          · exact .inr (.inr (List.forall_mem_cons.mpr ⟨earlier, before⟩))
    | call level =>
        intro ahead node finish recalls
        rw [same .group] at recalls
        exact sound ahead node finish recalls
    | done => trivial
  · rintro ⟨position, phase⟩ next ⟨fits, earlier⟩ step
    have same : ∀ symbol,
        recallFrom (entry :: memory) symbol position = recallFrom memory symbol position :=
      recallFrom_cons_of_ne (Int.ne_of_lt earlier)
    have step : Goes input memory base ⟨position, phase⟩ next := by
      cases step with
      | sign ahead bound => exact .sign ahead bound
      | leaf ahead => exact .leaf ahead
      | name ahead bound => exact .name ahead bound
      | recalled ahead recalls => exact .recalled ahead (same _ ▸ recalls)
      | argument ahead bound => exact .argument ahead bound
      | recalledArgument ahead recalls bound =>
          exact .recalledArgument ahead (same _ ▸ recalls) bound
      | called => exact .called
      | operator ahead bound => exact .operator ahead bound
      | operand unseen bound => exact .operand unseen bound
    exact ⟨fits.goes step, Int.lt_of_lt_of_le earlier (step.forward fits.sound)⟩

private theorem Respects.lower
    {symbol : Symbol} {lower : Nat} (respects : Respects memory symbol position level)
    (less : lower ≤ level) :
    Respects memory symbol position lower := by
  intro node finish recalls
  obtain ⟨within, forward⟩ := respects node finish recalls
  exact ⟨within.lower less, forward⟩

private theorem Fits.lower_fresh
    {lower : Nat} (fits : Fits input memory base ⟨position, .fresh level⟩)
    (less : lower ≤ level) :
    Fits input memory base ⟨position, .fresh lower⟩ := by
  refine fits_of_step ⟨fun symbol ahead => ?_, fits.sound.2⟩ fun next step => fits.goes ?_
  · exact (fits.sound.1 symbol ahead).lower less
  · cases step with
    | sign ahead bound => exact .sign ahead (by omega)
    | leaf ahead => exact .leaf ahead
    | name ahead bound => exact .name ahead (by omega)
    | recalled ahead recalls => exact .recalled ahead recalls

private theorem Fits.lower_call
    {lower : Nat} (fits : Fits input memory base ⟨position, .call level⟩)
    (less : lower ≤ level) :
    Fits input memory base ⟨position, .call lower⟩ := by
  refine fits_of_step (fun ahead => (fits.sound ahead).lower less) fun next step => ?_
  cases step with
  | argument ahead bound => exact fits.goes (.argument ahead (by omega))
  | recalledArgument ahead recalls bound =>
      exact fits.goes (.recalledArgument ahead recalls (by omega))
  | called => exact fits.goes .called

private theorem Goes.raise
    {place next : Place} {higher : Nat} (step : Goes input memory base place next)
    (less : base ≤ higher) :
    Goes input memory higher place next := by
  cases step with
  | sign ahead bound => exact .sign ahead bound
  | leaf ahead => exact .leaf ahead
  | name ahead bound => exact .name ahead bound
  | recalled ahead recalls => exact .recalled ahead recalls
  | argument ahead bound => exact .argument ahead bound
  | recalledArgument ahead recalls bound => exact .recalledArgument ahead recalls bound
  | called => exact .called
  | operator ahead bound => exact .operator ahead (by omega)
  | operand unseen bound => exact .operand unseen (by omega)

theorem Fits.lower_base
    {place : Place} {lower : Nat} (fits : Fits input memory base place) (less : lower ≤ base) :
    Fits input memory lower place :=
  fun reached walk => fits reached
    (Relation.ReflTransGen.mono (fun _ _ step => Goes.raise step less) _ _ walk)

theorem Input.Ahead.not_ahead
    {symbols others : List Symbol} (ahead : input.Ahead symbols position)
    (disjoint : ∀ symbol ∈ symbols, symbol ∉ others) : ¬ input.Ahead others position := by
  obtain ⟨token, standing⟩ := ahead
  exact standing.not_ahead disjoint

theorem Opens.ahead
    {symbol : Symbol} (opens : Opens input symbol position) :
    input.Ahead [.openParen, .keyword .choose] position := by
  cases opens with
  | group ahead => exact ahead.mono (by decide)
  | conditional ahead => exact ahead.mono (by decide)

/-- Only one rule begins at a position. -/
theorem Opens.unique
    {symbol other : Symbol} (opens : Opens input symbol position)
    (opensOther : Opens input other position) : symbol = other := by
  cases opens with
  | group ahead =>
      cases opensOther with
      | group _ => rfl
      | conditional other => exact absurd other (ahead.not_ahead (by decide))
  | conditional ahead =>
      cases opensOther with
      | group other => exact absurd other (ahead.not_ahead (by decide))
      | conditional _ => rfl

private theorem Input.Ahead.not_opens
    {symbols : List Symbol} (ahead : input.Ahead symbols position)
    (disjoint : ∀ symbol ∈ symbols, symbol ∉ [Symbol.openParen, .keyword .choose])
    (symbol : Symbol) : ¬ Opens input symbol position :=
  fun opens => ahead.not_ahead disjoint opens.ahead

/-! ## Walking back -/

/-- Nothing is recalled at a sign, a number or a name. -/
theorem fits_of_unopened
    {symbols : List Symbol} (ahead : input.Ahead symbols position)
    (begins : ∀ symbol ∈ symbols,
      symbol ∈ [Symbol.plus, .minus, .numeral, .identifier, .keyword .input])
    (steps : ∀ next, (∀ symbol, ¬ Opens input symbol position) →
      Goes input memory base ⟨position, .fresh level⟩ next → Fits input memory base next) :
    Fits input memory base ⟨position, .fresh level⟩ := by
  have passes := ahead.mono begins
  have unopened := passes.not_opens (by decide)
  exact fits_of_step ⟨fun symbol opens => absurd opens (unopened symbol), .inl passes⟩
    fun next step => steps next unopened step

theorem fits_of_sign
    (ahead : input.Ahead [.plus, .minus] position)
    (fits : Fits input memory base ⟨position + 1, .fresh (level + 1)⟩) :
    Fits input memory base ⟨position, .fresh level⟩ := by
  refine fits_of_unopened ahead (by decide) fun next unopened step => ?_
  cases step with
  | sign _ bound => exact fits.lower_fresh bound
  | leaf other => exact absurd other (ahead.not_ahead (by decide))
  | name other _ => exact absurd other (ahead.not_ahead (by decide))
  | recalled opens _ => exact absurd opens (unopened _)

theorem fits_of_leaf
    (ahead : input.Ahead [.numeral, .keyword .input] position)
    (fits : Fits input memory base ⟨position + 1, .done⟩) :
    Fits input memory base ⟨position, .fresh level⟩ := by
  refine fits_of_unopened ahead (by decide) fun next unopened step => ?_
  cases step with
  | sign other _ => exact absurd other (ahead.not_ahead (by decide))
  | leaf _ => exact fits
  | name other _ => exact absurd other (ahead.not_ahead (by decide))
  | recalled opens _ => exact absurd opens (unopened _)

theorem fits_of_name
    (ahead : input.Ahead [.identifier] position)
    (fits : Fits input memory base ⟨position + 1, .call level⟩) :
    Fits input memory base ⟨position, .fresh level⟩ := by
  refine fits_of_unopened ahead (by decide) fun next unopened step => ?_
  cases step with
  | sign other _ => exact absurd other (ahead.not_ahead (by decide))
  | leaf other => exact absurd other (ahead.not_ahead (by decide))
  | name _ bound => exact fits.lower_call bound
  | recalled opens _ => exact absurd opens (unopened _)

theorem fits_of_operator
    (ahead : input.Ahead binary position)
    (fits : Fits input memory base ⟨position + 1, .fresh base⟩) :
    Fits input memory base ⟨position, .done⟩ := by
  refine fits_of_step trivial fun next step => ?_
  cases step with
  | operator _ bound => exact fits.lower_fresh bound
  | operand unseen _ => exact absurd ahead unseen

theorem fits_of_operand
    (unseen : ¬ input.Ahead binary position)
    (fits : Fits input memory base ⟨position, .fresh base⟩) :
    Fits input memory base ⟨position, .done⟩ := by
  refine fits_of_step trivial fun next step => ?_
  cases step with
  | operator ahead _ => exact absurd ahead unseen
  | operand _ bound => exact fits.lower_fresh bound

/-- A call ends where no argument begins. -/
theorem fits_of_called
    (unseen : ¬ input.Ahead atomStart position)
    (fits : Fits input memory base ⟨position, .done⟩) :
    Fits input memory base ⟨position, .call level⟩ := by
  have unopened : ¬ Opens input .group position := by
    rintro ⟨opening⟩
    exact unseen (opening.mono (by decide))
  refine fits_of_step (fun opens => absurd opens unopened) fun next step => ?_
  cases step with
  | argument ahead _ => exact absurd (ahead.mono (by decide)) unseen
  | recalledArgument opens _ _ => exact absurd opens unopened
  | called => exact fits

/-- Without calls an argument would be an operand, on a level that is no deeper. -/
theorem fits_done_of_argument
    (ahead : input.Ahead [.numeral, .identifier, .keyword .input] position) (less : base ≤ level)
    (fits : Fits input memory base ⟨position + 1, .call level⟩) :
    Fits input memory base ⟨position, .done⟩ := by
  refine fits_of_operand (ahead.not_ahead (by decide)) ?_
  obtain ⟨token, found, member⟩ := ahead
  by_cases isName : token.symbol = .identifier
  · exact fits_of_name ⟨token, found, by simp [isName]⟩ (fits.lower_call less)
  · refine fits_of_leaf ⟨token, found, ?_⟩ (fits.goes .called)
    simpa [isName] using member

theorem fits_of_argument
    (ahead : input.Ahead [.numeral, .identifier, .keyword .input] position) (less : base ≤ level)
    (fits : Fits input memory base ⟨position + 1, .call level⟩) :
    Fits input memory base ⟨position, .call level⟩ := by
  have unopened := ahead.not_opens (by decide) .group
  refine fits_of_step (fun opens => absurd opens unopened) fun next step => ?_
  cases step with
  | argument _ bound => exact fits.lower_call bound
  | recalledArgument opens _ _ => exact absurd opens unopened
  | called => exact fits_done_of_argument ahead less fits

section Remembered

variable {symbol : Symbol} (opens : Opens input symbol position)

include opens

/-- A walk stops at what is remembered for a term, or goes on behind its node. -/
theorem fits_of_remembered
    {result : Except Diagnostic (Node × Int)}
    (recalls : recallFrom memory symbol position = some result)
    (behind : ∀ node finish, result = .ok (node, finish) →
      node.Within level ∧ position < finish ∧ Fits input memory base ⟨finish, .done⟩) :
    Fits input memory base ⟨position, .fresh level⟩ := by
  have others := opens.ahead
  have same : ∀ other node finish, Opens input other position →
      recallFrom memory other position = some (.ok (node, finish)) → result = .ok (node, finish) := by
    intro other node finish opensOther recalls'
    cases opens.unique opensOther
    exact Option.some.inj (recalls.symm.trans recalls')
  have passes : Passes input memory position := .inr (.inl ⟨symbol, opens, by rw [recalls]; rfl⟩)
  refine fits_of_step ⟨?_, passes⟩ fun next step => ?_
  · intro other opensOther node finish recalls'
    obtain ⟨within, forward, _⟩ := behind node finish (same other node finish opensOther recalls')
    exact ⟨within, forward⟩
  · cases step with
    | sign other _ => exact absurd other (others.not_ahead (by decide))
    | leaf other => exact absurd other (others.not_ahead (by decide))
    | name other _ => exact absurd other (others.not_ahead (by decide))
    | recalled opensOther recalls' =>
        exact (behind _ _ (same _ _ _ opensOther recalls')).2.2

theorem fits_of_recalled
    {node : Node} {finish : Int}
    (recalls : recallFrom memory symbol position = some (.ok (node, finish)))
    (within : node.Within level) (forward : position < finish)
    (fits : Fits input memory base ⟨finish, .done⟩) :
    Fits input memory base ⟨position, .fresh level⟩ := by
  refine fits_of_remembered opens recalls ?_
  rintro _ _ ⟨⟩
  exact ⟨within, forward, fits⟩

/-- A remembered failure ends every walk. -/
theorem fits_of_failed
    {diagnostic : Diagnostic}
    (recalls : recallFrom memory symbol position = some (.error diagnostic)) :
    Fits input memory base ⟨position, .fresh level⟩ :=
  fits_of_remembered opens recalls nofun

end Remembered

/-- The same for the group that is an argument: without calls it would be an operand. -/
theorem fits_of_rememberedArgument
    (opening : input.Ahead [.openParen] position) {result : Except Diagnostic (Node × Int)}
    (recalls : recallFrom memory .group position = some result)
    (operand : Fits input memory base ⟨position, .fresh base⟩)
    (behind : ∀ node finish, result = .ok (node, finish) →
      node.Within level ∧ position < finish ∧ Fits input memory base ⟨finish, .call level⟩) :
    Fits input memory base ⟨position, .call level⟩ := by
  refine fits_of_step ?_ fun next step => ?_
  · intro _ node finish recalls'
    obtain ⟨within, forward, _⟩ := behind node finish
      (Option.some.inj (recalls.symm.trans recalls'))
    exact ⟨within, forward⟩
  · cases step with
    | argument other _ => exact absurd other (opening.not_ahead (by decide))
    | recalledArgument _ recalls' bound =>
        have fits := (behind _ _ (Option.some.inj (recalls.symm.trans recalls'))).2.2
        exact fits.lower_call bound
    | called => exact fits_of_operand (opening.not_ahead (by decide)) operand

theorem fits_of_recalledArgument
    (opening : input.Ahead [.openParen] position) (less : base ≤ level)
    {node : Node} {finish : Int}
    (recalls : recallFrom memory .group position = some (.ok (node, finish)))
    (within : node.Within level) (forward : position < finish)
    (fits : Fits input memory base ⟨finish, .call level⟩) :
    Fits input memory base ⟨position, .call level⟩ := by
  have operand : Fits input memory base ⟨position, .fresh base⟩ :=
    fits_of_recalled (.group opening) recalls (within.lower less) forward (fits.goes .called)
  refine fits_of_rememberedArgument opening recalls operand ?_
  rintro _ _ ⟨⟩
  exact ⟨within, forward, fits⟩

theorem fits_of_failedArgument
    (opening : input.Ahead [.openParen] position) {diagnostic : Diagnostic}
    (recalls : recallFrom memory .group position = some (.error diagnostic)) :
    Fits input memory base ⟨position, .call level⟩ :=
  fits_of_rememberedArgument opening recalls (fits_of_failed (.group opening) recalls) nofun

end RomanScript.Grammar
