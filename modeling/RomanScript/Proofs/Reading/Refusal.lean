import RomanScript.Proofs.Reading.Blame
import RomanScript.Proofs.Reading.Expectation
import RomanScript.Proofs.Reading.Walked

/-!
# Where a program is refused

Without conditionals, every reading is at a position where something is expected, and it goes on to
a position where what it leads to is expected. So a token that is not wanted is found at once: what
is before it can be completed to a sentence, and nothing completes what is up to it.
-/

namespace RomanScript.Grammar

open Reading Expectation

def Input.Expects (input : Input) (position : Int) (expectation : Expectation) : Prop :=
  ∃ tokens, input.Spells 0 tokens position ∧ Expectation.statement.run tokens = some expectation

def Input.Follows (input : Input) (position : Int) (steps : Symbol → Option Expectation) : Prop :=
  ∀ token, input.tokenAt? position = some token →
    ∃ expectation, input.Expects position expectation ∧
      expectation.step token.symbol = steps token.symbol

/-- A token that does not lead on, or a limit that is crossed. -/
inductive Input.Objects (input : Input) : Diagnostic → Prop
  | unexpected {position : Int} {expectation : Expectation} {token : Token} (wanted : String) :
      0 ≤ position → position < input.tokens.size → input.Expects position expectation →
      input.tokenAt? position = some token → expectation.step token.symbol = none →
      input.Objects
        ⟨.unexpectedToken wanted token.symbol token.text, token.line, token.column, input.path⟩
  | tooDeep (limit : Nat) (line column : Int) :
      input.Objects ⟨.tooDeep limit, line, column, input.path⟩

variable {input : Input} {position : Int} {expectation next : Expectation} {token : Token}
    {symbols : List Symbol} {steps : Symbol → Option Expectation} {groups : List Bool}

private theorem Input.Expects.follows (expects : input.Expects position expectation) :
    input.Follows position expectation.step :=
  fun _ _ => ⟨expectation, expects, rfl⟩

private theorem Input.Follows.expects
    (follows : input.Follows position steps) (standing : input.At position symbols token)
    (leads : steps token.symbol = some next) : input.Expects (position + 1) next := by
  obtain ⟨expectation, ⟨tokens, spelled, ran⟩, stepped⟩ := follows token standing.1
  refine ⟨tokens ++ [token], spelled.append (spells_singleton standing), ?_⟩
  rw [run_append_of_run _ ran, run_cons_of_step _ (stepped.trans leads)]
  rfl

/-- Behind an atom that is followed by no argument, the whole operand has ended. -/
theorem Input.Expects.follows_join
    {called : Bool} (expects : input.Expects position (afterAtom groups called))
    (ends : called = true → ¬ input.Ahead atomStart position) :
    input.Follows position (join groups) := by
  intro token found
  refine ⟨_, expects, step_afterAtom groups fun recognised isAtom => ?_⟩
  exact ends recognised ⟨token, found, isAtom⟩

/-- Where no operator follows, a whole expression has ended. -/
theorem Input.Follows.close
    (follows : input.Follows position (join groups)) (ends : ¬ input.Ahead binary position) :
    input.Follows position (Expectation.close groups) := by
  intro token found
  obtain ⟨expectation, expects, stepped⟩ := follows token found
  refine ⟨expectation, expects, stepped.trans (if_neg fun isBinary => ?_)⟩
  exact ends ⟨token, found, isBinary⟩

/-- What leads to an expectation at a position of a list is the part of the list before it. -/
theorem Input.Expects.run_take
    {tokens : List Token} {path : Option String} {settings : Settings}
    (expects : Input.Expects ⟨tokens.toArray, path, settings⟩ position expectation)
    (inside : position ≤ tokens.length) :
    Expectation.statement.run (tokens.take position.toNat) = some expectation := by
  obtain ⟨before, spelled, ran⟩ := expects
  have finish := spelled.finish_eq
  obtain ⟨rest, split⟩ := spelled.exists_rest (Int.le_refl 0) inside
  rw [Int.toNat_zero, List.drop_zero] at split
  rw [split, show position.toNat = before.length by omega, List.take_left]
  exact ran

/-! ## Outcomes -/

/-- A state behind everything that is remembered, in which calls are recognised. -/
structure Clear (input : Input) (s : State) : Prop where
  calls : s.calls = true
  nonneg : 0 ≤ s.position
  inside : s.position < input.tokens.size
  memory : Before s.memory s.position

/-- How a reading ends: further on, where it is expected to, or with an objection. -/
inductive Proceeds {α : Type} (input : Input) (s : State) (expects : Int → Prop) :
    Except Failure α × State → Prop
  | misuse {misuse : Misuse} {s' : State} : Proceeds input s expects (.error (.misuse misuse), s')
  | diagnostic {diagnostic : Diagnostic} {s' : State} :
      input.Objects diagnostic → Proceeds input s expects (.error (.diagnostic diagnostic), s')
  | value {a : α} {s' : State} :
      Clear input s' → s.position ≤ s'.position → expects s'.position →
      Proceeds input s expects (.ok a, s')

section Proceeds

variable {α β : Type} {s : State} {expects others : Int → Prop}

private theorem Clear.moved
    (clear : Clear input s) (inside : s.position + 1 < input.tokens.size) :
    Clear input { s with position := s.position + 1 } where
  calls := clear.calls
  nonneg := Int.le_add_one clear.nonneg
  inside := inside
  memory := clear.memory.mono (Int.le_add_one (Int.le_refl _))

private theorem Clear.passed
    (clear : Clear input s) (terminated : input.Terminated)
    (standing : input.At s.position symbols token) (inside : .endOfText ∉ symbols) :
    Clear input { s with position := s.position + 1 } :=
  clear.moved (standing.succ_lt_size clear.nonneg terminated inside)

private theorem Clear.deeper (clear : Clear input s) : Clear input s.deeper :=
  ⟨clear.calls, clear.nonneg, clear.inside, clear.memory⟩

namespace Proceeds

private theorem imp
    {outcome : Except Failure α × State} (proceeds : Proceeds input s expects outcome)
    (imp : ∀ position, s.position ≤ position → expects position → others position) :
    Proceeds input s others outcome := by
  cases proceeds with
  | misuse => exact .misuse
  | diagnostic objects => exact .diagnostic objects
  | value clear forward holds => exact .value clear forward (imp _ forward holds)

private theorem of_later
    {outcome : Except Failure α × State} {later : State}
    (proceeds : Proceeds input later expects outcome)
    (forward : s.position ≤ later.position) : Proceeds input s expects outcome := by
  cases proceeds with
  | misuse => exact .misuse
  | diagnostic objects => exact .diagnostic objects
  | value clear further holds => exact .value clear (Int.le_trans forward further) holds

private theorem bind
    {first : Reading α} {continuation : α → Reading β} (begun : Proceeds input s expects (first s))
    (continued : ∀ a s', Clear input s' → s.position ≤ s'.position → expects s'.position →
      Proceeds input s' others (continuation a s')) :
    Proceeds input s others ((first >>= continuation) s) := by
  rw [bind_apply]
  generalize first s = outcome at begun
  cases begun with
  | misuse => exact .misuse
  | diagnostic objects => exact .diagnostic objects
  | value clear forward holds => exact (continued _ _ clear forward holds).of_later forward

private theorem pure {a : α} (clear : Clear input s) (holds : expects s.position) :
    Proceeds input s expects ((Pure.pure a : Reading α) s) :=
  .value clear (Int.le_refl _) holds

private theorem leaf
    (clear : Clear input s) (terminated : input.Terminated)
    (standing : input.At s.position symbols token) (inside : .endOfText ∉ symbols)
    (holds : expects (s.position + 1)) : Proceeds input s expects (Grammar.leaf input s) := by
  rw [leaf_of_at standing terminated inside]
  exact .value (clear.passed terminated standing inside) (Int.le_add_one (Int.le_refl _)) holds

/-- A token that is known to stand there is taken, and the rest is read behind it. -/
theorem leafThen
    {continuation : Node → Reading β} (clear : Clear input s) (terminated : input.Terminated)
    (standing : input.At s.position symbols token) (inside : .endOfText ∉ symbols)
    (continued : ∀ s', Clear input s' → s'.position = s.position + 1 →
      Proceeds input s' others (continuation (.leaf token) s')) :
    Proceeds input s others ((Grammar.leaf input >>= continuation) s) := by
  rw [bind_apply_ok (leaf_of_at standing terminated inside)]
  exact (continued _ (clear.passed terminated standing inside) rfl).of_later
    (Int.le_add_one (Int.le_refl _))

private theorem ifSees
    {first other : Reading α}
    (seen : ∀ token, input.At s.position symbols token → Proceeds input s expects (first s))
    (unseen : ¬ input.Ahead symbols s.position → Proceeds input s expects (other s)) :
    Proceeds input s expects
      ((sees input symbols >>= fun found => if found = true then first else other) s) :=
  ifSees_cases (fun _ _ => .misuse) seen unseen

/-- A token is refused where it does not lead on. -/
theorem refuse
    (clear : Clear input s) (follows : input.Follows s.position steps)
    (unexpected : ∀ token, input.tokenAt? s.position = some token → steps token.symbol = none)
    (wanted : String) :
    Proceeds input s expects ((Grammar.refuse input wanted : Reading α) s) := by
  rw [refuse_apply]
  cases found : input.tokenAt? s.position with
  | none => exact .misuse
  | some token =>
      obtain ⟨expectation, expects, stepped⟩ := follows token found
      exact .diagnostic (.unexpected wanted clear.nonneg clear.inside expects found
        (stepped.trans (unexpected token found)))

/-- A token is taken if it is the only one that leads on. -/
theorem expect
    {symbol : Symbol} (clear : Clear input s) (terminated : input.Terminated)
    (inside : symbol ≠ .endOfText) (follows : input.Follows s.position steps)
    (leads : steps symbol = some next)
    (only : ∀ token, input.tokenAt? s.position = some token → token.symbol ≠ symbol →
      steps token.symbol = none) :
    Proceeds input s (input.Expects · next) (Grammar.expect input symbol s) := by
  refine .ifSees (fun token standing => ?_) fun unseen => ?_
  · have isSymbol := List.mem_singleton.mp standing.2
    exact .leaf clear terminated standing (by simpa using inside.symm)
      (follows.expects standing (isSymbol ▸ leads))
  · refine .refuse clear follows (fun token found => only token found ?_) _
    rintro rfl
    exact unseen ⟨token, found, List.mem_singleton_self _⟩

private theorem expressionRule
    {symbol : Symbol} {children : List Node} (clear : Clear input s) (holds : expects s.position) :
    Proceeds input s expects (Grammar.expressionRule input symbol children s) := by
  rw [expressionRule_apply]
  split
  · exact .diagnostic (.tooDeep _ _ _)
  · exact .value clear (Int.le_refl _) holds

private theorem withCalls
    {reading : Reading α} (clear : Clear input s)
    (proceeds : Proceeds input s expects (reading s)) :
    Proceeds input s expects (Reading.withCalls true reading s) := by
  have same : { s with calls := true } = s := by rw [← clear.calls]
  unfold Reading.withCalls Reading.afterwards
  rw [same]
  generalize reading s = outcome at proceeds
  cases proceeds with
  | misuse => exact .misuse
  | diagnostic objects => exact .diagnostic objects
  | value clearAfter forward holds =>
      exact .value ⟨clear.calls, clearAfter.nonneg, clearAfter.inside, clearAfter.memory⟩ forward
        holds

private theorem nested
    {reading : Reading α} (proceeds : Proceeds input s.deeper expects (reading s.deeper)) :
    Proceeds input s expects (Grammar.nested input reading s) := by
  by_cases crosses : input.Crosses s
  · cases found : input.tokenAt? s.position with
    | none =>
        rw [nested_of_crosses_none reading crosses found]
        exact .misuse
    | some token =>
        rw [nested_of_crosses reading crosses found]
        exact .diagnostic (.tooDeep _ _ _)
  · rw [nested_of_not_crosses reading crosses]
    generalize reading s.deeper = outcome at proceeds
    cases proceeds with
    | misuse => exact .misuse
    | diagnostic objects => exact .diagnostic objects
    | value clear forward holds =>
        exact .value ⟨clear.calls, clear.nonneg, clear.inside, clear.memory⟩ forward holds

theorem visit
    (symbol : Symbol) {body : Reading Node} (clear : Clear input s)
    (proceeds : ∀ s', s'.position = s.position → Clear input s' →
      Proceeds input s' expects (body s')) :
    Proceeds input s expects ((Grammar.visit symbol >>= fun _ => body) s) := by
  have visited : Clear input { s with visits := (symbol, s.position) :: s.visits } :=
    ⟨clear.calls, clear.nonneg, clear.inside, clear.memory⟩
  have ended := proceeds { s with visits := (symbol, s.position) :: s.visits } rfl visited
  exact ended.of_later (Int.le_refl _)

/-- Nothing is recalled, and what is remembered is behind the reading then. -/
theorem remembering
    {symbol : Symbol} {body : Reading Node} (clear : Clear input s)
    (proceeds : Proceeds input s (fun position => s.position < position ∧ expects position)
      (body s)) :
    Proceeds input s expects (Grammar.remembering input symbol body s) := by
  have fresh : (if input.settings.remembers then s.recall? symbol s.position else none) = none := by
    split
    · exact recallFrom_eq_none_of_before clear.memory symbol
    · rfl
  unfold Grammar.remembering
  rw [fresh]
  dsimp only
  generalize body s = outcome at proceeds
  cases proceeds with
  | misuse => exact .misuse
  | diagnostic objects => exact .diagnostic objects
  | value clearAfter forward holds =>
      refine .value ⟨clearAfter.calls, clearAfter.nonneg, clearAfter.inside, ?_⟩ forward holds.2
      exact List.forall_mem_cons.mpr ⟨holds.1, clearAfter.memory⟩

end Proceeds

end Proceeds

/-! ## Expressions -/

private theorem beginAtom_eq_none
    {called : Bool} {symbol : Symbol} (noAtom : symbol ∉ atomStart) :
    beginAtom groups called symbol = none := by
  simp only [atomStart, List.mem_cons, List.not_mem_nil, or_false, not_or] at noAtom
  obtain ⟨notNumeral, notName, notInput, notOpening⟩ := noAtom
  unfold beginAtom
  split <;> simp_all

def Input.Plain (input : Input) : Prop :=
  ∀ position, ¬ input.Ahead [.keyword .choose] position

/-- A reading of whole expressions, wherever an operand is expected. -/
def ExpressionsProceed (input : Input) (expression : Reading Node) : Prop :=
  ∀ s groups, Clear input s → input.Expects s.position (.operand groups) →
    Proceeds input s (input.Follows · (close groups)) (expression s)

section Expressions

variable (terminated : input.Terminated) (plain : input.Plain) {expression : Reading Node}
    (expressionsProceed : ExpressionsProceed input expression) {s : State}

include terminated expressionsProceed

private theorem proceeds_group
    {called : Bool} (clear : Clear input s)
    (standing : input.At s.position [.openParen] token)
    (expects : input.Expects s.position expectation)
    (opens : expectation.step .openParen = some (.operand (called :: groups))) :
    Proceeds input s
      (fun position => s.position < position ∧ input.Expects position (afterAtom groups called))
      (group input expression s) := by
  have isOpening := List.mem_singleton.mp standing.2
  have operand := expects.follows.expects standing (isOpening ▸ opens)
  have only : ∀ symbol, symbol ≠ .closeParen → close (called :: groups) symbol = none := by
    intro symbol notClosing
    unfold close
    split
    · rename_i nothing
      cases nothing
    · exact absurd rfl notClosing
    · rfl
  unfold group
  refine .visit .group clear fun s₀ position₀ clear₀ => ?_
  rw [← position₀] at standing operand ⊢
  refine .leafThen clear₀ terminated standing (by decide) fun s₁ clear₁ position₁ => ?_
  refine .bind (.withCalls clear₁ (expressionsProceed s₁ _ clear₁ (position₁ ▸ operand)))
    fun inner s₂ clear₂ forward₂ follows => ?_
  refine .bind (.expect clear₂ terminated (by decide) follows rfl fun token _ => only token.symbol)
    fun closing s₃ clear₃ forward₃ expects => ?_
  exact .expressionRule clear₃ ⟨by omega, expects⟩

private theorem proceeds_rememberedGroup
    {called : Bool} (clear : Clear input s)
    (standing : input.At s.position [.openParen] token)
    (expects : input.Expects s.position expectation)
    (opens : expectation.step .openParen = some (.operand (called :: groups))) :
    Proceeds input s (input.Expects · (afterAtom groups called))
      (remembering input .group (group input expression) s) :=
  .remembering clear (proceeds_group terminated expressionsProceed clear standing expects opens)

/-- An argument of a call is never refused where it begins. -/
theorem proceeds_argument
    (clear : Clear input s) (expects : input.Expects s.position (.argument groups))
    (isAtom : input.Ahead atomStart s.position) :
    Proceeds input s (input.Expects · (.argument groups)) (atom input expression s) := by
  unfold atom
  refine .ifSees (fun token standing => ?_) fun unseen => .ifSees (fun token standing => ?_) ?_
  · refine .leaf clear terminated standing (by decide) (expects.follows.expects standing ?_)
    have member := standing.2
    simp only [List.mem_cons, List.not_mem_nil, or_false] at member
    rcases member with same | same | same <;> rw [same] <;> rfl
  · exact proceeds_rememberedGroup terminated expressionsProceed clear standing expects rfl
  · exact fun unopened => absurd isAtom (Input.not_ahead_append unseen unopened)

private theorem proceeds_atoms
    (steps : Nat) (clear : Clear input s) (expects : input.Expects s.position (.argument groups)) :
    Proceeds input s (input.Follows · (join groups)) (atoms input expression steps s) := by
  induction steps generalizing s with
  | zero => exact .misuse
  | succ steps inductionHypothesis =>
      unfold atoms
      refine .ifSees (fun token standing => ?_) fun none => ?_
      · refine .bind
          (proceeds_argument terminated expressionsProceed clear expects ⟨token, standing⟩)
          fun first s₁ clear₁ _ expects₁ => ?_
        refine .bind (inductionHypothesis clear₁ expects₁) fun rest s₂ clear₂ _ follows => ?_
        exact .pure clear₂ follows
      · have ended : input.Expects s.position (afterAtom groups true) := expects
        exact .pure clear (ended.follows_join fun _ => none)

private theorem proceeds_call
    (clear : Clear input s) (standing : input.At s.position [.identifier] token)
    (expects : input.Expects s.position (.operand groups)) :
    Proceeds input s (input.Follows · (join groups)) (call input expression s) := by
  have isName := List.mem_singleton.mp standing.2
  have argument : input.Expects (s.position + 1) (.argument groups) :=
    expects.follows.expects standing (by rw [isName]; rfl)
  unfold call
  refine .leafThen clear terminated standing (by decide) fun s₁ clear₁ position₁ => ?_
  refine .bind (proceeds_atoms terminated expressionsProceed _ clear₁ (position₁ ▸ argument))
    fun arguments s₂ clear₂ _ follows => ?_
  exact .expressionRule clear₂ follows

/-- An atom by itself is an operand; anything else is refused where it stands. -/
theorem proceeds_operandAtom
    (clear : Clear input s) (expects : input.Expects s.position (.operand groups))
    (unsigned : ¬ input.Ahead [.plus, .minus] s.position)
    (alone : input.Ahead [.identifier] s.position → ¬ input.Ahead atomStart (s.position + 1)) :
    Proceeds input s (input.Follows · (join groups)) (atom input expression s) := by
  unfold atom
  refine .ifSees (fun token standing => ?_) fun unseen => .ifSees (fun token standing => ?_) ?_
  · refine .leaf clear terminated standing (by decide) ?_
    by_cases isName : token.symbol = .identifier
    · have called : input.Expects (s.position + 1) (afterAtom groups true) :=
        expects.follows.expects standing (by rw [isName]; rfl)
      exact called.follows_join fun _ => alone ⟨token, standing.1, List.mem_singleton.mpr isName⟩
    · have ended : input.Expects (s.position + 1) (afterAtom groups false) := by
        refine expects.follows.expects standing ?_
        have member := standing.2
        simp only [List.mem_cons, List.not_mem_nil, or_false, isName, false_or] at member
        rcases member with same | same <;> rw [same] <;> rfl
      exact ended.follows_join nofun
  · have ended : Proceeds input s (input.Expects · (afterAtom groups false)) _ :=
      proceeds_rememberedGroup terminated expressionsProceed clear standing expects rfl
    exact ended.imp fun _ _ expects => expects.follows_join nofun
  · intro unopened
    have noAtom : ¬ input.Ahead atomStart s.position := Input.not_ahead_append unseen unopened
    refine .refuse clear expects.follows (fun token found => ?_) _
    have noSign : token.symbol ∉ [.plus, .minus] := fun isSign => unsigned ⟨token, found, isSign⟩
    exact (if_neg noSign).trans (beginAtom_eq_none fun isAtom => noAtom ⟨token, found, isAtom⟩)

include plain

private theorem proceeds_term
    (clear : Clear input s) (expects : input.Expects s.position (.operand groups))
    (unsigned : ¬ input.Ahead [.plus, .minus] s.position) :
    Proceeds input s (input.Follows · (join groups)) (term input expression s) := by
  unfold term
  refine .ifSees (fun token standing => absurd ⟨token, standing⟩ (plain _)) fun _ => ?_
  refine ifSeesCall_cases (fun _ _ => .misuse) (fun token standing => ?_) fun alone => ?_
  · exact proceeds_call terminated expressionsProceed clear standing expects
  · exact proceeds_operandAtom terminated expressionsProceed clear expects unsigned
      (alone clear.calls)

private theorem proceeds_signedWithin
    (steps : Nat) (clear : Clear input s) (expects : input.Expects s.position (.operand groups)) :
    Proceeds input s (input.Follows · (join groups)) (signedWithin input expression steps s) := by
  induction steps generalizing s with
  | zero => exact .misuse
  | succ steps inductionHypothesis =>
      unfold signedWithin
      refine .ifSees (fun token standing => ?_) fun unsigned => ?_
      · have operand := expects.follows.expects standing (if_pos standing.2)
        refine .leafThen clear terminated standing (by decide) fun s₁ clear₁ position₁ => ?_
        refine .nested (.bind (inductionHypothesis clear₁.deeper (position₁ ▸ operand))
          fun node s₂ clear₂ _ follows => ?_)
        exact .expressionRule clear₂ follows
      · exact proceeds_term terminated plain expressionsProceed clear expects unsigned

omit expressionsProceed plain in
/-- Operands that end somewhere are joined until no operator follows. -/
theorem proceeds_chain
    {symbol : Symbol} {operators : List Symbol} {operand : Reading Node} {ends : Int → Prop}
    (areBinary : ∀ symbol ∈ operators, symbol ∈ binary)
    (operandsProceed : ∀ s, Clear input s → input.Expects s.position (.operand groups) →
      Proceeds input s (fun position => input.Follows position (join groups) ∧ ends position)
        (operand s))
    (clear : Clear input s) (expects : input.Expects s.position (.operand groups)) :
    Proceeds input s
      (fun position => input.Follows position (join groups) ∧ ends position ∧
        ¬ input.Ahead operators position)
      (chain input symbol operators operand s) := by
  have rest : ∀ steps s left, Clear input s →
      input.Follows s.position (join groups) → ends s.position →
        Proceeds input s
          (fun position => input.Follows position (join groups) ∧ ends position ∧
            ¬ input.Ahead operators position)
          (chainWithin input symbol operators operand steps left s) := by
    intro steps
    induction steps with
    | zero => exact fun _ _ _ _ _ => .misuse
    | succ steps inductionHypothesis =>
        intro s left clear follows ended
        unfold chainWithin
        refine .ifSees (fun token standing => ?_) fun none => .pure clear ⟨follows, ended, none⟩
        have notEnd : Symbol.endOfText ∉ operators :=
          fun isEnd => absurd (areBinary _ isEnd) (by decide)
        have right := follows.expects standing (if_pos (areBinary _ standing.2))
        refine .leafThen clear terminated standing notEnd fun s₁ clear₁ position₁ => ?_
        refine .bind (operandsProceed s₁ clear₁ (position₁ ▸ right))
          fun operand s₂ clear₂ _ follows₂ => ?_
        have ruled : Proceeds input s₂ (fun position => input.Follows position (join groups) ∧
            ends position) (expressionRule input symbol [left, .leaf token, operand] s₂) :=
          .expressionRule clear₂ follows₂
        refine .bind ruled fun joined s₃ clear₃ _ follows₃ => ?_
        exact inductionHypothesis s₃ joined clear₃ follows₃.1 follows₃.2
  unfold chain
  refine .bind (operandsProceed s clear expects) fun first s₁ clear₁ _ follows => ?_
  exact rest _ s₁ first clear₁ follows.1 follows.2

private theorem proceeds_sum
    (clear : Clear input s) (expects : input.Expects s.position (.operand groups)) :
    Proceeds input s (input.Follows · (close groups)) (sum input expression s) := by
  have signed : ∀ s, Clear input s → input.Expects s.position (.operand groups) →
      Proceeds input s (fun position => input.Follows position (join groups) ∧ True)
        (signed input expression s) := fun s clear expects =>
    (proceeds_signedWithin terminated plain expressionsProceed _ clear expects).imp
      fun _ _ follows => ⟨follows, trivial⟩
  have product : ∀ s, Clear input s → input.Expects s.position (.operand groups) →
      Proceeds input s
        (fun position => input.Follows position (join groups) ∧
          ¬ input.Ahead [.times, .divide] position)
        (product input expression s) := fun s clear expects =>
    (proceeds_chain terminated (by decide) signed clear expects).imp
      fun _ _ ended => ⟨ended.1, ended.2.2⟩
  refine (proceeds_chain terminated (by decide) product clear expects).imp
    fun position _ ended => ended.1.close ?_
  exact Input.not_ahead_append ended.2.2 ended.2.1

omit expressionsProceed in
private theorem proceeds_expressionWithin (levels : Nat) :
    ExpressionsProceed input (expressionWithin input levels) := by
  induction levels with
  | zero => exact fun _ _ _ _ => .misuse
  | succ levels inductionHypothesis =>
      intro s groups clear expects
      exact .nested (proceeds_sum terminated plain inductionHypothesis clear.deeper expects)

omit expressionsProceed in
private theorem proceeds_wholeExpression
    (clear : Clear input s) (expects : input.Expects s.position (.operand [])) :
    Proceeds input s (input.Follows · beginStatement) (wholeExpression input s) :=
  proceeds_expressionWithin terminated plain _ s [] clear expects

end Expressions

/-! ## Statements -/

section Statements

inductive Expectation.Awaits : Expectation → Symbol → Prop
  | definedName : Awaits .definedName .identifier
  | declaredName : Awaits .declaredName .identifier
  | equals : Awaits .equals .equals

private theorem Expectation.Awaits.step_eq_none
    {symbol other : Symbol} (awaits : expectation.Awaits symbol) (differs : other ≠ symbol) :
    expectation.step other = none := by
  cases awaits <;> cases other <;> first | rfl | exact absurd rfl differs

private theorem step_parameters_eq_none
    {symbol : Symbol} (notEquals : symbol ≠ .equals) (notName : symbol ≠ .identifier) :
    Expectation.parameters.step symbol = none := by
  cases symbol <;> first | rfl | exact absurd rfl notEquals | exact absurd rfl notName

/-- Only the end of the text and three keywords stand where a statement may begin. -/
theorem beginStatement_eq_none
    {symbol : Symbol} (notEnd : symbol ≠ .endOfText) (notDefine : symbol ≠ .keyword .define)
    (notDeclare : symbol ≠ .keyword .declare) (notOutput : symbol ≠ .keyword .output) :
    beginStatement symbol = none := by
  unfold beginStatement
  split
  · exact absurd rfl notDefine
  · exact absurd rfl notDeclare
  · exact absurd rfl notOutput
  · exact absurd rfl notEnd
  · rfl

variable (terminated : input.Terminated) {s : State}

include terminated

private theorem proceeds_namesWithin
    (steps : Nat) (clear : Clear input s) (expects : input.Expects s.position .parameters) :
    Proceeds input s
      (fun position => input.Expects position .parameters ∧ ¬ input.Ahead [.identifier] position)
      (namesWithin input steps s) := by
  induction steps generalizing s with
  | zero => exact .misuse
  | succ steps inductionHypothesis =>
      unfold namesWithin
      refine .ifSees (fun token standing => ?_) fun none => .pure clear ⟨expects, none⟩
      have isName := List.mem_singleton.mp standing.2
      have parameters : input.Expects (s.position + 1) .parameters :=
        expects.follows.expects standing (by rw [isName]; rfl)
      refine .leafThen clear terminated standing (by decide) fun s₁ clear₁ position₁ => ?_
      refine .bind (inductionHypothesis clear₁ (position₁ ▸ parameters))
        fun rest s₂ clear₂ _ ended => .pure clear₂ ended

variable (plain : input.Plain)

include plain

private theorem proceeds_functionDef
    (clear : Clear input s) (follows : input.Follows s.position beginStatement)
    (standing : input.At s.position [.keyword .define] token) :
    Proceeds input s (input.Follows · beginStatement) (functionDef input s) := by
  have isKeyword := List.mem_singleton.mp standing.2
  have name : input.Expects (s.position + 1) .definedName :=
    follows.expects standing (by rw [isKeyword]; rfl)
  unfold functionDef
  refine .leafThen clear terminated standing (by decide) fun s₁ clear₁ position₁ => ?_
  refine .bind (.expect clear₁ terminated (by decide) (position₁ ▸ name).follows rfl
    fun _ _ => Awaits.definedName.step_eq_none) fun name s₂ clear₂ _ expects₂ => ?_
  refine .bind (proceeds_namesWithin terminated _ clear₂ expects₂)
    fun parameters s₃ clear₃ _ expects₃ => ?_
  have onlyEquals : ∀ token, input.tokenAt? s₃.position = some token → token.symbol ≠ .equals →
      Expectation.parameters.step token.symbol = none := by
    intro token found notEquals
    refine step_parameters_eq_none notEquals fun isName => expects₃.2 ⟨token, found, ?_⟩
    exact List.mem_singleton.mpr isName
  refine .bind (.expect clear₃ terminated (by decide) expects₃.1.follows rfl onlyEquals)
    fun equals s₄ clear₄ _ expects₄ => ?_
  refine .bind (proceeds_wholeExpression terminated plain clear₄ expects₄)
    fun body s₅ clear₅ _ follows₅ => .pure clear₅ follows₅

private theorem proceeds_variableDecl
    (clear : Clear input s) (follows : input.Follows s.position beginStatement)
    (standing : input.At s.position [.keyword .declare] token) :
    Proceeds input s (input.Follows · beginStatement) (variableDecl input s) := by
  have isKeyword := List.mem_singleton.mp standing.2
  have name : input.Expects (s.position + 1) .declaredName :=
    follows.expects standing (by rw [isKeyword]; rfl)
  unfold variableDecl
  refine .leafThen clear terminated standing (by decide) fun s₁ clear₁ position₁ => ?_
  refine .bind (.expect clear₁ terminated (by decide) (position₁ ▸ name).follows rfl
    fun _ _ => Awaits.declaredName.step_eq_none) fun name s₂ clear₂ _ expects₂ => ?_
  refine .bind (.expect clear₂ terminated (by decide) expects₂.follows rfl
    fun _ _ => Awaits.equals.step_eq_none) fun equals s₃ clear₃ _ expects₃ => ?_
  refine .bind (proceeds_wholeExpression terminated plain clear₃ expects₃)
    fun value s₄ clear₄ _ follows₄ => .pure clear₄ follows₄

private theorem proceeds_outputStmt
    (clear : Clear input s) (follows : input.Follows s.position beginStatement)
    (standing : input.At s.position [.keyword .output] token) :
    Proceeds input s (input.Follows · beginStatement) (outputStmt input s) := by
  have isKeyword := List.mem_singleton.mp standing.2
  have operand : input.Expects (s.position + 1) (.operand []) :=
    follows.expects standing (by rw [isKeyword]; rfl)
  unfold outputStmt
  refine .leafThen clear terminated standing (by decide) fun s₁ clear₁ position₁ => ?_
  refine .bind (proceeds_wholeExpression terminated plain clear₁ (position₁ ▸ operand))
    fun value s₂ clear₂ _ follows₂ => .pure clear₂ follows₂

private theorem proceeds_statement
    (clear : Clear input s) (follows : input.Follows s.position beginStatement)
    (goesOn : ∀ token, input.tokenAt? s.position = some token → token.symbol ≠ .endOfText) :
    Proceeds input s (input.Follows · beginStatement) (statement input s) := by
  rw [statement_apply]
  cases found : input.tokenAt? s.position with
  | none => exact .misuse
  | some token =>
      have inner : Proceeds input s (input.Follows · beginStatement)
          (statementFor input token.symbol s) := by
        unfold statementFor
        split_ifs with isDefine isDeclare isOutput
        · exact proceeds_functionDef terminated plain clear follows
            ⟨found, List.mem_singleton.mpr isDefine⟩
        · exact proceeds_variableDecl terminated plain clear follows
            ⟨found, List.mem_singleton.mpr isDeclare⟩
        · exact proceeds_outputStmt terminated plain clear follows
            ⟨found, List.mem_singleton.mpr isOutput⟩
        · refine .refuse clear follows (fun other found' => ?_) _
          cases found.symm.trans found'
          exact beginStatement_eq_none (goesOn token found) isDefine isDeclare isOutput
      exact .bind inner fun node s₁ clear₁ _ follows₁ => .pure clear₁ follows₁

private theorem proceeds_statementsWithin
    (steps : Nat) (clear : Clear input s) (follows : input.Follows s.position beginStatement) :
    Proceeds input s (input.Follows · beginStatement) (statementsWithin input steps s) := by
  induction steps generalizing s with
  | zero => exact .misuse
  | succ steps inductionHypothesis =>
      rw [statementsWithin_succ_apply]
      cases found : input.tokenAt? s.position with
      | none => exact .misuse
      | some token =>
          dsimp only
          by_cases isEnd : token.symbol = .endOfText
          · rw [if_pos isEnd]
            exact .value clear (Int.le_refl _) follows
          · rw [if_neg isEnd]
            have goesOn : ∀ other, input.tokenAt? s.position = some other →
                other.symbol ≠ .endOfText := by
              intro other found'
              cases found.symm.trans found'
              exact isEnd
            refine .bind (proceeds_statement terminated plain clear follows goesOn)
              fun first s₁ clear₁ _ follows₁ => ?_
            exact .bind (inductionHypothesis clear₁ follows₁)
              fun rest s₂ clear₂ _ follows₂ => .pure clear₂ follows₂

/-- A program without conditionals is refused with an objection only. -/
theorem objects_of_program
    {diagnostic : Diagnostic} {after : State}
    (failed : program input State.start = (.error (.diagnostic diagnostic), after)) :
    input.Objects diagnostic := by
  have start : Clear input State.start :=
    ⟨rfl, Int.le_refl 0, by simpa [State.start] using terminated.size_pos,
      fun _ member => absurd member List.not_mem_nil⟩
  have expects : input.Expects State.start.position .statement := ⟨[], rfl, rfl⟩
  have proceeds := proceeds_statementsWithin terminated plain (input.budget State.start) start
    expects.follows
  have begun : withBudget input (statementsWithin input) State.start =
      statementsWithin input (input.budget State.start) State.start := rfl
  rw [program, bind_apply, begun] at failed
  generalize statementsWithin input (input.budget State.start) State.start = outcome
    at proceeds failed
  cases proceeds with
  | misuse => cases failed
  | diagnostic objects =>
      cases failed
      exact objects
  | @value statements s' _ _ _ =>
      -- Behind the statements only the end of the text is taken.
      dsimp only at failed
      rw [bind_apply, leaf_apply] at failed
      cases found : input.tokenAt? s'.position with
      | none =>
          rw [found] at failed
          cases failed
      | some token =>
          rw [found] at failed
          cases failed

end Statements

end RomanScript.Grammar

namespace RomanScript.Tree

open Grammar

/-- No two tokens stand at one place. -/
theorem index_unique
    {tokens : List Token}
    (apart : tokens.Pairwise fun left right =>
      (left.line, left.column) ≠ (right.line, right.column))
    {index other : Nat} {left right : Token} (isLeft : tokens[index]? = some left)
    (isRight : tokens[other]? = some right)
    (same : (left.line, left.column) = (right.line, right.column)) : index = other := by
  obtain ⟨leftInside, rfl⟩ := List.getElem?_eq_some_iff.mp isLeft
  obtain ⟨rightInside, rfl⟩ := List.getElem?_eq_some_iff.mp isRight
  have pairs := List.pairwise_iff_getElem.mp apart
  rcases Nat.lt_trichotomy index other with earlier | equal | later
  · exact absurd same (pairs index other leftInside rightInside earlier)
  · exact equal
  · exact absurd same.symm (pairs other index rightInside leftInside later)

/-- Where a list of tokens without conditionals is refused because of a token, that token is the
first one with which no sentence can begin: what is before it begins a sentence, and one whose
definitions come first if those before it do; but no sentence begins with what is up to it. -/
theorem ofTokens_viable
    {tokens : List Token} {path : Option String}
    (finished : (tokens.getLast?.map (·.symbol)) = some .endOfText)
    (plain : ∀ token ∈ tokens, token.symbol ≠ .keyword .choose)
    (apart : tokens.Pairwise fun left right =>
      (left.line, left.column) ≠ (right.line, right.column))
    {wanted text : String} {found : Symbol} {line column : Int} {path' : Option String}
    (refused : ofTokens tokens path =
      .error (.diagnostic ⟨.unexpectedToken wanted found text, line, column, path'⟩)) :
    ∃ index token, tokens[index]? = some token ∧
      (token.symbol = found ∧ token.text = text ∧ token.line = line ∧ token.column = column) ∧
      (∀ other token', tokens[other]? = some token' → token'.line = line → token'.column = column →
        other = index) ∧
      (∃ rest, Sentence (tokens.take index ++ rest) ∧
        (DefinitionsFirst (tokens.take index) →
          DefinitionsFirst (tokens.take index ++ rest))) ∧
      ∀ rest, ¬ Sentence (tokens.take (index + 1) ++ rest) := by
  have terminated := terminated_of_getLast? finished path .full
  have plainInput : Input.Plain ⟨tokens.toArray, path, .full⟩ := by
    rintro position ⟨token, found, member⟩
    exact plain token (by simpa using mem_of_tokenAt? found) (List.mem_singleton.mp member)
  rw [ofTokens, ofTokensUnder_of_finished finished] at refused
  generalize ran : program ⟨tokens.toArray, path, .full⟩ State.start = outcome at refused
  obtain ⟨failure | root, after⟩ := outcome
  · cases refused
    have objects := objects_of_program terminated plainInput ran
    cases objects with
    | @unexpected position expectation token _ nonneg inside expects found unexpected =>
        have inside : position < tokens.length := by simpa using inside
        have here := getElem?_of_tokenAt? nonneg inside found
        have ran := expects.run_take (Int.le_of_lt inside)
        refine ⟨position.toNat, token, here, ⟨rfl, rfl, rfl, rfl⟩, ?_, ?_, ?_⟩
        · intro other token' found' line column
          have same : (token'.line, token'.column) = (token.line, token.column) := by
            rw [line, column]
          exact index_unique apart found' here same
        · exact Expectation.exists_sentence
            (fun token member => plain token (List.mem_of_mem_take member)) ran
        · intro more
          rw [List.take_add_one, here, List.append_assoc]
          exact Expectation.not_sentence ran unexpected more
  · cases refused

/-- An output of two numbers, of which only the first is expected. -/
def twoNumbers : List Token :=
  Token.row [(.keyword .output, "Grafo"), (.numeral, "I"), (.numeral, "II"), (.endOfText, "")]

theorem ofTokens_viable_twoNumbers :
    (twoNumbers.getLast?.map (·.symbol)) = some .endOfText ∧
      (∀ token ∈ twoNumbers, token.symbol ≠ .keyword .choose) ∧
      (twoNumbers.Pairwise fun left right =>
        (left.line, left.column) ≠ (right.line, right.column)) ∧
      ofTokens twoNumbers none = .error (.diagnostic
        ⟨.unexpectedToken "a statement" .numeral "II", 1, 2, none⟩) ∧
      ∃ index token, twoNumbers[index]? = some token ∧
        (token.symbol = .numeral ∧ token.text = "II" ∧ token.line = 1 ∧ token.column = 2) ∧
        (∃ rest, Sentence (twoNumbers.take index ++ rest) ∧
          (DefinitionsFirst (twoNumbers.take index) →
            DefinitionsFirst (twoNumbers.take index ++ rest))) ∧
        ∀ rest, ¬ Sentence (twoNumbers.take (index + 1) ++ rest) := by
  have finished : (twoNumbers.getLast?.map (·.symbol)) = some .endOfText := rfl
  have plain : ∀ token ∈ twoNumbers, token.symbol ≠ .keyword .choose := by decide
  have apart : twoNumbers.Pairwise fun left right =>
      (left.line, left.column) ≠ (right.line, right.column) := by decide
  have refused : ofTokens twoNumbers none = .error (.diagnostic
      ⟨.unexpectedToken "a statement" .numeral "II", 1, 2, none⟩) := by decide +kernel
  obtain ⟨index, token, here, isToken, _, viable, dead⟩ :=
    ofTokens_viable finished plain apart refused
  exact ⟨finished, plain, apart, refused, index, token, here, isToken, viable, dead⟩

/-- A definition without a body, behind an output. -/
def lateDefinition : List Token :=
  Token.row [(.keyword .output, "Grafo"), (.numeral, "I"), (.keyword .define, "Munus"),
    (.identifier, "f"), (.equals, "="), (.closeParen, ")"), (.endOfText, "")]

/-- The parser takes definitions behind other statements, so what is before the refused token need
not begin a sentence in the stricter order. -/
theorem not_ofTokens_viable_definitionsFirst :
    ¬ ∀ (tokens : List Token) (wanted text : String) (found : Symbol) (line column : Int),
      (tokens.getLast?.map (·.symbol)) = some .endOfText →
      (∀ token ∈ tokens, token.symbol ≠ .keyword .choose) →
      (tokens.Pairwise fun left right => (left.line, left.column) ≠ (right.line, right.column)) →
      ofTokens tokens none =
        .error (.diagnostic ⟨.unexpectedToken wanted found text, line, column, none⟩) →
      ∀ (index : Nat) (token : Token), tokens[index]? = some token →
        token.line = line → token.column = column →
          (∃ rest, Sentence (tokens.take index ++ rest) ∧
            DefinitionsFirst (tokens.take index ++ rest)) ∧
          ∀ rest, ¬ (Sentence (tokens.take (index + 1) ++ rest) ∧
            DefinitionsFirst (tokens.take (index + 1) ++ rest)) := by
  intro viable
  have refused : ofTokens lateDefinition none = .error (.diagnostic
      ⟨.unexpectedToken "expression" .closeParen ")", 1, 5, none⟩) := by decide +kernel
  obtain ⟨⟨rest, _, first⟩, _⟩ := viable lateDefinition "expression" ")" .closeParen 1 5 rfl
    (by decide) (by decide) refused 5 ⟨.closeParen, ")", 1, 5⟩ rfl rfl rfl
  have before : DefinitionsFirst (lateDefinition.take 5) := (List.pairwise_append.mp first).1
  have late : ¬ DefinitionsFirst (lateDefinition.take 5) := by
    unfold DefinitionsFirst
    decide
  exact late before

end RomanScript.Tree
