import RomanScript.Proofs.Reading.Program
import RomanScript.Proofs.Reading.Repetition

/-!
# What is derived is read

Without limits and memory, every derivation is found: the choices that a derivation makes are those
of the parser. A conditional is read without calls only if its operands cannot be read with them, so
derivations are meant that make the same distinction.
-/

namespace RomanScript.Grammar

open Reading

/-- The operands of a conditional cannot be read with calls from this position on. -/
def Starved (input : Input) (position : Int) : Prop :=
  ∃ diagnostic after,
    operands (wholeExpression input) true { State.start with position := position } =
      (.error (.diagnostic diagnostic), after)

def Gives {α : Type} (reading : Reading α) (s : State) (value : α) (finish : Int) : Prop :=
  ∃ after, reading s = (.ok value, after) ∧ after.position = finish

variable {input : Input} {α β : Type}

/-! ## Proof rules -/

private theorem Gives.bind
    (input : Input) {first : Reading α} {next : α → Reading β} [Keeps input first] {s : State}
    {a : α} {b : β} {middle finish : Int} (begun : Gives first s a middle)
    (continued : ∀ s', s'.position = middle → s'.calls = s.calls → Gives (next a) s' b finish) :
    Gives (first >>= next) s b finish := by
  obtain ⟨s', read, position⟩ := begun
  have grown : Grows input s (first s).2 := Keeps.grows s
  rw [read] at grown
  obtain ⟨after, readNext, last⟩ := continued s' position grown.calls
  exact ⟨after, (bind_apply_ok read).trans readNext, last⟩

private theorem Gives.pure {a : α} {s : State} {finish : Int} (position : s.position = finish) :
    Gives (Pure.pure a) s a finish :=
  ⟨s, rfl, position⟩

private theorem Gives.withCalls
    {reading : Reading α} {calls : Bool} {s : State} {a : α} {finish : Int}
    (given : Gives reading { s with calls := calls } a finish) :
    Gives (Reading.withCalls calls reading) s a finish := by
  obtain ⟨after, read, position⟩ := given
  refine ⟨{ after with calls := s.calls }, ?_, position⟩
  unfold Reading.withCalls Reading.afterwards
  rw [read]

private theorem Gives.withBudget
    {repetition : Nat → Reading α} {s : State} {a : α} {finish : Int}
    (given : Gives (repetition (input.budget s)) s a finish) :
    Gives (Reading.withBudget input repetition) s a finish :=
  given

private theorem Gives.orElseAgain
    {first again : Reading α} {s : State} {a : α} {finish : Int}
    (given : Gives first s a finish) :
    Gives (Reading.orElseAgain first again) s a finish := by
  obtain ⟨after, read, position⟩ := given
  refine ⟨after, ?_, position⟩
  unfold Reading.orElseAgain
  rw [read]
  rfl

private theorem Gives.retried
    {first again : Reading α} {s after : State} {a : α} {finish : Int} {diagnostic : Diagnostic}
    (failed : first s = (.error (.diagnostic diagnostic), after))
    (given : Gives again { after with position := s.position } a finish) :
    Gives (Reading.orElseAgain first again) s a finish := by
  obtain ⟨last, read, position⟩ := given
  refine ⟨last, ?_, position⟩
  unfold Reading.orElseAgain
  rw [failed]
  dsimp only [retry]
  rw [read]

private theorem Gives.leaf
    (terminated : input.Terminated) {symbols : List Symbol} {token : Token} {s : State}
    (standing : input.At s.position symbols token) (notEnd : .endOfText ∉ symbols) :
    Gives (Grammar.leaf input) s (.leaf token) (s.position + 1) :=
  ⟨_, leaf_of_at standing terminated notEnd, rfl⟩

private theorem Gives.ifSees
    {symbols : List Symbol} {token : Token} {first other : Reading α} {s : State}
    {a : α} {finish : Int} (standing : input.At s.position symbols token)
    (given : Gives first s a finish) :
    Gives (sees input symbols >>= fun found => if found = true then first else other) s a
      finish := by
  obtain ⟨after, read, position⟩ := given
  exact ⟨after, (ifSees_of_at standing).trans read, position⟩

private theorem Gives.ifNotSees
    (terminated : input.Terminated) {symbols : List Symbol} {first other : Reading α} {s : State}
    {a : α} {finish : Int} (nonneg : 0 ≤ s.position) (none : ¬ input.Ahead symbols s.position)
    (given : Gives other s a finish) :
    Gives (sees input symbols >>= fun found => if found = true then first else other) s a
      finish := by
  obtain ⟨after, read, position⟩ := given
  exact ⟨after, (ifSees_of_not_ahead terminated nonneg none).trans read, position⟩

private theorem Gives.expect
    (terminated : input.Terminated) {symbol : Symbol} {token : Token} {s : State}
    (standing : input.At s.position [symbol] token) (notEnd : symbol ≠ .endOfText) :
    Gives (Grammar.expect input symbol) s (.leaf token) (s.position + 1) :=
  .ifSees standing (.leaf terminated standing (by simpa using notEnd.symm))

private theorem Gives.expressionRule
    (unlimited : input.settings.limited = false) (symbol : Symbol) (children : List Node)
    {s : State} {finish : Int} (position : s.position = finish) :
    Gives (Grammar.expressionRule input symbol children) s (.rule symbol children) finish := by
  refine ⟨s, ?_, position⟩
  rw [expressionRule_apply, if_neg]
  rintro ⟨limited, _⟩
  rw [unlimited] at limited
  cases limited

private theorem Gives.nested
    (unlimited : input.settings.limited = false) {reading : Reading α} {s : State} {a : α}
    {finish : Int} (given : Gives reading s.deeper a finish) :
    Gives (Grammar.nested input reading) s a finish := by
  obtain ⟨after, read, position⟩ := given
  refine ⟨after.shallower, ?_, position⟩
  rw [nested_of_not_crosses, read]
  rintro ⟨limited, _⟩
  rw [unlimited] at limited
  cases limited

private theorem Gives.remembering
    (off : input.settings.remembers = false) (symbol : Symbol) {body : Reading Node} {s : State}
    {node : Node} {finish : Int}
    (given : Gives body s node finish) :
    Gives (Grammar.remembering input symbol body) s node finish := by
  obtain ⟨after, read, position⟩ := given
  refine ⟨after.remember s symbol (.ok (node, after.position)), ?_, position⟩
  rw [remembering_off off, read]
  rfl

private theorem Gives.visit
    (symbol : Symbol) {body : Reading Node} {s : State} {node : Node} {finish : Int}
    (given : Gives body { s with visits := (symbol, s.position) :: s.visits } node finish) :
    Gives (Grammar.visit symbol >>= fun _ => body) s node finish :=
  given

private theorem Gives.ifSeesCall
    {callee : Token} {first other : Reading α} {s : State} {a : α} {finish : Int}
    (calls : s.calls = true) (standing : input.At s.position [.identifier] callee)
    (argument : input.Ahead atomStart (s.position + 1)) (given : Gives first s a finish) :
    Gives (seesCall input >>= fun found => if found = true then first else other) s a finish := by
  obtain ⟨after, read, position⟩ := given
  exact ⟨after, (ifSeesCall_of_at calls standing argument).trans read, position⟩

private theorem Gives.ifNotSeesCall
    (terminated : input.Terminated) {first other : Reading α} {s : State} {a : α} {finish : Int}
    (nonneg : 0 ≤ s.position)
    (alone : s.calls = true → input.Ahead [.identifier] s.position →
      ¬ input.Ahead atomStart (s.position + 1))
    (given : Gives other s a finish) :
    Gives (seesCall input >>= fun found => if found = true then first else other) s a finish := by
  obtain ⟨after, read, position⟩ := given
  exact ⟨after, (ifSeesCall_of_alone terminated nonneg alone).trans read, position⟩

/-! ## Derivations -/

def GivesOne (reading : Reading Node) (s : State) (nodes : List Node) (finish : Int) : Prop :=
  ∃ node, nodes = [node] ∧ Gives reading s node finish

/-- The part is read from every state at its beginning, with enough levels and steps. -/
def Found (input : Input) : Part → Int → List Node → Int → Prop
  | .rule symbol, start, nodes, finish => ∀ (levels : Nat) (s : State),
      s.position = start → input.tokens.size - start ≤ (levels : Int) →
        GivesOne (bodyOf input symbol levels) s nodes finish
  | .atom, start, nodes, finish => ∀ (levels : Nat) (s : State),
      s.position = start → input.tokens.size - start ≤ (levels : Int) →
        GivesOne (atom input (expressionWithin input levels)) s nodes finish
  | .atoms, start, nodes, finish => ∀ (levels steps : Nat) (s : State),
      s.position = start → input.tokens.size - start ≤ (levels : Int) →
      input.tokens.size - start < (steps : Int) →
        Gives (atoms input (expressionWithin input levels) steps) s nodes finish
  | .term calls, start, nodes, finish => ∀ (levels : Nat) (s : State),
      s.position = start → s.calls = calls → input.tokens.size - start ≤ (levels : Int) →
        GivesOne (term input (expressionWithin input levels)) s nodes finish
  | .signed calls, start, nodes, finish => ∀ (levels steps : Nat) (s : State),
      s.position = start → s.calls = calls → input.tokens.size - start ≤ (levels : Int) →
      input.tokens.size - start < (steps : Int) →
        GivesOne (signedWithin input (expressionWithin input levels) steps) s nodes finish
  | .chain tier calls, start, nodes, finish => ∀ (levels : Nat) (s : State),
      s.position = start → s.calls = calls → input.tokens.size - start ≤ (levels : Int) →
        GivesOne (chain input tier.symbol tier.operators
          (operandOf input (expressionWithin input levels) tier)) s nodes finish
  | .rest tier calls left, start, nodes, finish => ∀ (levels steps : Nat) (s : State),
      s.position = start → s.calls = calls → input.tokens.size - start ≤ (levels : Int) →
      input.tokens.size - start < (steps : Int) →
        GivesOne (chainWithin input tier.symbol tier.operators
          (operandOf input (expressionWithin input levels) tier) steps left) s nodes finish
  | .names, start, nodes, finish => ∀ (steps : Nat) (s : State),
      s.position = start → input.tokens.size - start < (steps : Int) →
        Gives (namesWithin input steps) s nodes finish
  | .statement calls, start, nodes, finish => ∀ s : State,
      s.position = start → s.calls = calls → GivesOne (statement input) s nodes finish
  | .statements calls, start, nodes, finish => ∀ (steps : Nat) (s : State),
      s.position = start → s.calls = calls → input.tokens.size - start < (steps : Int) →
        Gives (statementsWithin input steps) s nodes finish

section Completeness

variable (terminated : input.Terminated) (off : input.settings.remembers = false)
    (unlimited : input.settings.limited = false)

include unlimited in
/-- Each whole expression is a sum one level deeper. -/
theorem gives_expressionWithin
    {calls : Bool} {start finish : Int} {node : Node}
    (found : Found input (.expression calls) start [node] finish)
    {levels : Nat} {s : State} (position : s.position = start) (sameCalls : s.calls = calls)
    (inside : start ≤ input.tokens.size)
    (enough : input.tokens.size - start < (levels : Int)) :
    Gives (expressionWithin input levels) s node finish := by
  cases levels with
  | zero => omega
  | succ levels =>
      obtain ⟨_, ⟨⟩, given⟩ := found levels s.deeper position sameCalls (by omega)
      exact .nested unlimited given

include unlimited in
private theorem gives_wholeExpression
    {calls : Bool} {start finish : Int} {node : Node}
    (found : Found input (.expression calls) start [node] finish)
    {s : State} (position : s.position = start) (sameCalls : s.calls = calls)
    (inside : start ≤ input.tokens.size) :
    Gives (wholeExpression input) s node finish := by
  have enough : input.tokens.size - start < (input.budget s : Int) := by
    dsimp only [Input.budget]
    omega
  unfold wholeExpression
  exact .withBudget (gives_expressionWithin unlimited found position sameCalls inside enough)

/-- A statement is read as its first token tells. -/
theorem gives_statement
    {s : State} {symbol : Symbol} {token : Token} {node : Node} {finish : Int}
    (standing : input.At s.position [symbol] token)
    (given : Gives (statementFor input symbol) s node finish) :
    GivesOne (statement input) s [.rule .statement [node]] finish := by
  obtain ⟨found, member⟩ := standing
  rw [List.mem_singleton] at member
  refine ⟨_, rfl, ?_⟩
  have whole : Gives
      (statementFor input symbol >>= fun inner => pure (Node.rule .statement [inner]))
      s (Node.rule .statement [node]) finish :=
    .bind input given fun s₁ position₁ _ => .pure position₁
  obtain ⟨after, read, position⟩ := whole
  refine ⟨after, ?_, position⟩
  rw [statement_apply, found]
  dsimp only
  rw [member]
  exact read

instance (expression : Reading Node) [Keeps input expression] (tier : Tier) :
    Keeps input (operandOf input expression tier) := by
  cases tier
  · exact Keeps.signed expression
  · exact Keeps.product expression

/-- The operands of a tier are read with as many steps as they can need. -/
theorem gives_operandOf
    {tier : Tier} {finish : Int} {node : Node} {levels : Nat} {s : State}
    (found : Found input (tier.operand s.calls) s.position [node] finish)
    (enough : input.tokens.size - s.position ≤ (levels : Int)) :
    Gives (operandOf input (expressionWithin input levels) tier) s node finish := by
  cases tier with
  | product =>
      obtain ⟨_, ⟨⟩, given⟩ := found levels (input.budget s) s rfl rfl enough
        (by dsimp only [Input.budget]; omega)
      unfold operandOf signed
      exact .withBudget given
  | sum =>
      obtain ⟨_, ⟨⟩, given⟩ := found levels s rfl rfl enough
      exact given

include unlimited in
private theorem gives_operands
    {calls : Bool} {start second third finish : Int}
    {condition consequence alternative : Node} {levels : Nat} {s : State}
    (first : Found input (.expression calls) start [condition] second)
    (middle : Found input (.expression calls) second [consequence] third)
    (last : Found input (.expression calls) third [alternative] finish)
    (position : s.position = start)
    (enough : input.tokens.size - start < (levels : Int))
    (forward : start ≤ second) (further : second ≤ third) (inside : third ≤ input.tokens.size) :
    Gives (operands (expressionWithin input levels) calls) s
      [condition, consequence, alternative] finish := by
  unfold operands
  refine .withCalls ?_
  refine .bind input (gives_expressionWithin unlimited first position rfl (by omega) enough)
    fun s₁ position₁ calls₁ => ?_
  refine .bind input (gives_expressionWithin unlimited middle position₁ calls₁ (by omega)
    (by omega)) fun s₂ position₂ calls₂ => ?_
  refine .bind input (gives_expressionWithin unlimited last position₂ (calls₂.trans calls₁) inside
    (by omega)) fun s₃ position₃ _ => ?_
  exact .pure position₃

include terminated off unlimited in
/-- The operands of a conditional come out the same from every state with enough levels. -/
theorem starved_iff
    {levels : Nat} {s : State} (nonneg : 0 ≤ s.position) (inside : s.position ≤ input.tokens.size)
    (enough : input.tokens.size - s.position < (levels : Int)) :
    Starved input s.position ↔
      ∃ diagnostic after, operands (expressionWithin input levels) true s =
        (.error (.diagnostic diagnostic), after) := by
  have starves : Starves input fun _ => True := fun _ _ _ _ _ _ _ => trivial
  have ready : ∀ t : State, t.position = s.position → Ready input (fun _ => True) t :=
    fun t position => ⟨position ▸ nonneg, position ▸ inside, fun remembers => by
      rw [off] at remembers
      cases remembers⟩
  have ended := ends_operands terminated (parses_expressionWithin terminated starves levels) true
    (ready s rfl) (by omega)
  have ended' := ends_operands terminated (parses_wholeExpression terminated starves) true
    (ready { State.start with position := s.position } rfl) nonneg
  have grown : Grows input s (operands (expressionWithin input levels) true s).2 := Keeps.grows s
  have grown' : Grows input { State.start with position := s.position }
      (operands (wholeExpression input) true { State.start with position := s.position }).2 :=
    Keeps.grows _
  have blind := (inferInstance : Blind (operands (expressionWithin input levels) true)).same s true
  have lawful : (depths input 0 s.nesting).Lawful := depths_lawful
  have expressions : (depths input 0 s.nesting).Follows (wholeExpression input)
      (expressionWithin input levels) Eq := fun depth t t' related =>
    Simulation.follows_expressionWithin lawful (depths_remembers off) (input.budget t) levels
      depth t t' related
  have beside := Simulation.follows_operands lawful expressions true 0
    { State.start with position := s.position } { s with calls := true }
    ⟨rfl, rfl, rfl, (Int.add_zero _).symm⟩
  rw [blind] at beside
  unfold Starved
  generalize operands (expressionWithin input levels) true s = outcome at ended grown beside ⊢
  generalize operands (wholeExpression input) true { State.start with position := s.position } =
    outcome' at ended' grown' beside ⊢
  obtain ⟨result, after⟩ := outcome
  dsimp only at beside
  cases beside with
  | leftMisuse => cases ended'
  | rightMisuse => cases ended
  | excused deeper =>
      have same := grown.unlimited unlimited
      have same' := grown'.unlimited unlimited
      dsimp only [depths, State.start] at deeper same same'
      omega
  | value => constructor <;> rintro ⟨_, _, ⟨⟩⟩
  | diagnostic => exact ⟨fun _ => ⟨_, _, rfl⟩, fun _ => ⟨_, _, rfl⟩⟩

/-! ## Choices of the parser -/

section Choices

variable {starved : Int → Prop} {calls : Bool} {tier : Tier} {start next behind finish : Int}
    {first node : Node} {rest : List Node}

/-- A repetition that stands inside the text has a step left. -/
theorem exists_fewer
    {steps : Nat} (inside : start ≤ input.tokens.size)
    (enough : input.tokens.size - start < (steps : Int)) : ∃ fewer, steps = fewer + 1 :=
  Nat.exists_eq_add_one.mpr (by omega)

include terminated off in
private theorem found_groupAtom
    (nonneg : 0 ≤ start) (group : Reads input starved (.rule .group) start [node] finish)
    (found : Found input (.rule .group) start [node] finish) :
    Found input .atom start [node] finish := by
  rintro levels s rfl enough
  obtain ⟨_, ⟨⟩, given⟩ := found levels s rfl enough
  obtain ⟨opening, standing⟩ := group.ahead_openParen
  have notLeaf : ¬ input.Ahead [.numeral, .identifier, .keyword .input] s.position :=
    standing.not_ahead (by decide)
  exact ⟨_, rfl, .ifNotSees terminated nonneg notLeaf
    (.ifSees standing (.remembering off .group given))⟩

include terminated unlimited in
private theorem found_group
    {opening closing : Token} {inner : Node} (opens : input.At start [.openParen] opening)
    (found : Found input (.expression true) (start + 1) [inner] behind)
    (closes : input.At behind [.closeParen] closing) :
    Found input (.rule .group) start [.rule .group [.leaf opening, inner, .leaf closing]]
      (behind + 1) := by
  rintro levels s rfl enough
  have bound := opens.lt_size terminated (by decide)
  refine ⟨_, rfl, ?_⟩
  change Gives (Grammar.group input (expressionWithin input levels)) s _ _
  unfold Grammar.group
  refine .visit .group ?_
  refine .bind input (.leaf terminated opens (by decide)) fun s₁ position₁ calls₁ => ?_
  refine .bind input (.withCalls (gives_expressionWithin unlimited found position₁ rfl
    (by omega) (by omega))) fun s₂ position₂ calls₂ => ?_
  subst position₂
  refine .bind input (.expect terminated closes (by decide)) fun s₃ position₃ calls₃ => ?_
  exact .expressionRule unlimited _ _ position₃

private theorem found_moreAtoms
    (ahead : input.Ahead atomStart start) (forward : start < next)
    (inside : next ≤ input.tokens.size) (firstFound : Found input .atom start [first] next)
    (restFound : Found input .atoms next rest finish) :
    Found input .atoms start (first :: rest) finish := by
  rintro levels steps s rfl enough enoughSteps
  obtain ⟨steps, rfl⟩ := exists_fewer (by omega) enoughSteps
  obtain ⟨token, standing⟩ := ahead
  obtain ⟨_, ⟨⟩, given⟩ := firstFound levels s rfl enough
  refine .ifSees standing (.bind input given fun s₁ position₁ _ => ?_)
  have givenRest := restFound levels steps s₁ position₁ (by omega) (by omega)
  exact .bind input givenRest fun s₂ position₂ _ => .pure position₂

include terminated unlimited in
private theorem found_call
    {callee : Token} {arguments : List Node} (nonneg : 0 ≤ start)
    (standing : input.At start [.identifier] callee)
    (argument : input.Ahead atomStart (start + 1))
    (found : Found input .atoms (start + 1) arguments finish) :
    Found input (.term true) start [.rule .call (.leaf callee :: arguments)] finish := by
  rintro levels s rfl calls enough
  have bound := standing.lt_size terminated (by decide)
  have notChoose : ¬ input.Ahead [.keyword .choose] s.position := standing.not_ahead (by decide)
  refine ⟨_, rfl, .ifNotSees terminated nonneg notChoose
    (.ifSeesCall calls standing argument ?_)⟩
  unfold Grammar.call
  refine .bind input (.leaf terminated standing (by decide)) fun s₁ position₁ _ => ?_
  have given := found levels (input.budget s₁) s₁ position₁ (by omega)
    (by dsimp only [Input.budget]; omega)
  exact .bind input (.withBudget given) fun s₂ position₂ _ => .expressionRule unlimited _ _ position₂

include terminated in
private theorem found_atomTerm
    (nonneg : 0 ≤ start) (ahead : input.Ahead atomStart start)
    (alone : calls = true → input.Ahead [.identifier] start → ¬ input.Ahead atomStart (start + 1))
    (found : Found input .atom start [node] finish) :
    Found input (.term calls) start [node] finish := by
  rintro levels s rfl rfl enough
  obtain ⟨_, ⟨⟩, given⟩ := found levels s rfl enough
  obtain ⟨token, standing⟩ := ahead
  have notChoose : ¬ input.Ahead [.keyword .choose] s.position := standing.not_ahead (by decide)
  exact ⟨_, rfl, .ifNotSees terminated nonneg notChoose
    (.ifNotSeesCall terminated nonneg alone given)⟩

include terminated off unlimited in
/-- The operands are read with calls if they can be, and else once more without. -/
theorem found_conditional
    {second third : Int} {keyword : Token} {condition consequence alternative : Node}
    (nonneg : 0 ≤ start) (standing : input.At start [.keyword .choose] keyword)
    (firstFound : Found input (.expression calls) (start + 1) [condition] second)
    (middleFound : Found input (.expression calls) second [consequence] third)
    (lastFound : Found input (.expression calls) third [alternative] finish)
    (hungry : calls = false → Starved input (start + 1))
    (forward : start + 1 ≤ second) (further : second ≤ third)
    (inside : third ≤ input.tokens.size) :
    Found input (.rule .conditional) start
      [.rule .conditional [.leaf keyword, condition, consequence, alternative]] finish := by
  rintro levels s rfl enough
  have given : ∀ s' : State, s'.position = s.position + 1 →
      Gives (Grammar.operands (expressionWithin input levels) calls) s' _ _ := fun s' position =>
    gives_operands unlimited firstFound middleFound lastFound position (by omega) forward further
      inside
  refine ⟨_, rfl, ?_⟩
  change Gives (Grammar.conditional input (expressionWithin input levels)) s _ _
  unfold Grammar.conditional
  refine .visit .conditional ?_
  refine .bind input (.leaf terminated standing (by decide)) fun s₁ position₁ _ => ?_
  dsimp only at position₁
  refine .bind input ?_ fun s₂ position₂ _ => .expressionRule unlimited _ _ position₂
  cases calls with
  | true => exact .orElseAgain (given s₁ position₁)
  | false =>
      have starved := hungry rfl
      rw [← position₁] at starved
      have enough₁ : input.tokens.size - s₁.position < (levels : Int) := by omega
      obtain ⟨diagnostic, after, failed⟩ :=
        (starved_iff terminated off unlimited (by omega) (by omega) enough₁).mp starved
      exact .retried failed (given _ position₁)

include terminated unlimited in
private theorem found_sign
    {sign : Token} {operand : Node} (standing : input.At start [.plus, .minus] sign)
    (found : Found input (.signed calls) (start + 1) [operand] finish) :
    Found input (.signed calls) start [.rule .signed [.leaf sign, operand]] finish := by
  rintro levels steps s rfl rfl enough enoughSteps
  have bound := standing.lt_size terminated (by decide)
  obtain ⟨steps, rfl⟩ := exists_fewer (by omega) enoughSteps
  refine ⟨_, rfl, .ifSees standing ?_⟩
  refine .bind input (.leaf terminated standing (by decide)) fun s₁ position₁ calls₁ => ?_
  obtain ⟨_, ⟨⟩, given⟩ := found levels steps s₁.deeper position₁ calls₁ (by omega) (by omega)
  exact .nested unlimited (.bind input given fun s₂ position₂ _ =>
    .expressionRule unlimited _ _ position₂)

private theorem found_chain
    (forward : start ≤ next) (inside : next ≤ input.tokens.size)
    (firstFound : Found input (tier.operand calls) start [first] next)
    (restFound : Found input (.rest tier calls first) next [node] finish) :
    Found input (.chain tier calls) start [node] finish := by
  rintro levels s rfl rfl enough
  have given := gives_operandOf firstFound enough
  refine ⟨_, rfl, .bind input given fun s₁ position₁ calls₁ => ?_⟩
  obtain ⟨_, ⟨⟩, givenRest⟩ := restFound levels (input.budget s₁) s₁ position₁ calls₁ (by omega)
    (by dsimp only [Input.budget]; omega)
  exact .withBudget givenRest

include terminated unlimited in
private theorem found_moreRest
    {operator : Token} {left right : Node} (standing : input.At start tier.operators operator)
    (forward : start + 1 ≤ next) (inside : next ≤ input.tokens.size)
    (rightFound : Found input (tier.operand calls) (start + 1) [right] next)
    (restFound : Found input (.rest tier calls (.rule tier.symbol [left, .leaf operator, right]))
      next [node] finish) :
    Found input (.rest tier calls left) start [node] finish := by
  rintro levels steps s rfl rfl enough enoughSteps
  obtain ⟨steps, rfl⟩ := exists_fewer (by omega) enoughSteps
  have notEnd : .endOfText ∉ tier.operators := by cases tier <;> decide
  refine ⟨_, rfl, .ifSees standing ?_⟩
  refine .bind input (.leaf terminated standing notEnd) fun s₁ position₁ calls₁ => ?_
  rw [← calls₁, ← position₁] at rightFound
  refine .bind input (gives_operandOf rightFound (by omega)) fun s₂ position₂ calls₂ => ?_
  refine .bind input (.expressionRule unlimited _ _ position₂) fun s₃ position₃ calls₃ => ?_
  obtain ⟨_, ⟨⟩, givenRest⟩ := restFound levels steps s₃ position₃
    (calls₃.trans (calls₂.trans calls₁)) (by omega) (by omega)
  exact givenRest

include terminated in
private theorem found_moreNames
    {name : Token} (standing : input.At start [.identifier] name)
    (found : Found input .names (start + 1) rest finish) :
    Found input .names start (.leaf name :: rest) finish := by
  rintro steps s rfl enoughSteps
  have bound := standing.lt_size terminated (by decide)
  obtain ⟨steps, rfl⟩ := exists_fewer (by omega) enoughSteps
  refine .ifSees standing ?_
  refine .bind input (.leaf terminated standing (by decide)) fun s₁ position₁ _ => ?_
  have given := found steps s₁ position₁ (by omega)
  exact .bind input given fun s₂ position₂ _ => .pure position₂

section Statements

variable {keyword name equals : Token}

include terminated unlimited in
private theorem found_functionDef
    {parameters : List Node} {body : Node} (definesAt : input.At start [.keyword .define] keyword)
    (nameAt : input.At (start + 1) [.identifier] name)
    (parametersFound : Found input .names (start + 1 + 1) parameters behind)
    (equalsAt : input.At behind [.equals] equals)
    (bodyFound : Found input (.expression calls) (behind + 1) [body] finish) :
    Found input (.statement calls) start
      [.rule .statement [.rule .functionDef
        (.leaf keyword :: .leaf name :: parameters ++ [.leaf equals, body])]] finish := by
  rintro s rfl rfl
  have nameBound := nameAt.lt_size terminated (by decide)
  have equalsBound := equalsAt.lt_size terminated (by decide)
  refine gives_statement definesAt ?_
  change Gives (Grammar.functionDef input) _ _ _
  unfold Grammar.functionDef
  refine .bind input (.leaf terminated definesAt (by decide)) fun s₁ position₁ calls₁ => ?_
  rw [← position₁] at nameAt
  refine .bind input (.expect terminated nameAt (by decide)) fun s₂ position₂ calls₂ => ?_
  rw [position₁] at position₂
  have givenNames := parametersFound (input.budget s₂) s₂ position₂
    (by dsimp only [Input.budget]; omega)
  refine .bind input (.withBudget givenNames) fun s₃ position₃ calls₃ => ?_
  rw [← position₃] at equalsAt
  refine .bind input (.expect terminated equalsAt (by decide)) fun s₄ position₄ calls₄ => ?_
  rw [position₃] at position₄
  have givenBody := gives_wholeExpression unlimited bodyFound position₄
    (calls₄.trans (calls₃.trans (calls₂.trans calls₁))) (by omega)
  exact .bind input givenBody fun s₅ position₅ _ => .pure position₅

include terminated unlimited in
private theorem found_variableDecl
    {value : Node} (declaresAt : input.At start [.keyword .declare] keyword)
    (nameAt : input.At (start + 1) [.identifier] name)
    (equalsAt : input.At (start + 1 + 1) [.equals] equals)
    (valueFound : Found input (.expression calls) (start + 1 + 1 + 1) [value] finish) :
    Found input (.statement calls) start
      [.rule .statement [.rule .variableDecl [.leaf keyword, .leaf name, .leaf equals, value]]]
      finish := by
  rintro s rfl rfl
  have bound := equalsAt.lt_size terminated (by decide)
  refine gives_statement declaresAt ?_
  change Gives (Grammar.variableDecl input) _ _ _
  unfold Grammar.variableDecl
  refine .bind input (.leaf terminated declaresAt (by decide)) fun s₁ position₁ calls₁ => ?_
  rw [← position₁] at nameAt equalsAt
  refine .bind input (.expect terminated nameAt (by decide)) fun s₂ position₂ calls₂ => ?_
  rw [← position₂] at equalsAt
  refine .bind input (.expect terminated equalsAt (by decide)) fun s₃ position₃ calls₃ => ?_
  rw [position₂, position₁] at position₃
  have givenValue := gives_wholeExpression unlimited valueFound position₃
    (calls₃.trans (calls₂.trans calls₁)) (by omega)
  exact .bind input givenValue fun s₄ position₄ _ => .pure position₄

include terminated unlimited in
private theorem found_outputStmt
    {value : Node} (outputsAt : input.At start [.keyword .output] keyword)
    (valueFound : Found input (.expression calls) (start + 1) [value] finish) :
    Found input (.statement calls) start
      [.rule .statement [.rule .outputStmt [.leaf keyword, value]]] finish := by
  rintro s rfl rfl
  have bound := outputsAt.lt_size terminated (by decide)
  refine gives_statement outputsAt ?_
  change Gives (Grammar.outputStmt input) _ _ _
  unfold Grammar.outputStmt
  refine .bind input (.leaf terminated outputsAt (by decide)) fun s₁ position₁ calls₁ => ?_
  have givenValue := gives_wholeExpression unlimited valueFound position₁ calls₁ (by omega)
  exact .bind input givenValue fun s₂ position₂ _ => .pure position₂

private theorem found_noStatements
    (inside : start ≤ input.tokens.size) (ahead : input.Ahead [.endOfText] start) :
    Found input (.statements calls) start [] start := by
  rintro steps s rfl rfl enoughSteps
  obtain ⟨steps, rfl⟩ := exists_fewer inside enoughSteps
  obtain ⟨token, found, member⟩ := ahead
  refine ⟨s, ?_, rfl⟩
  rw [statementsWithin_succ_apply, found]
  dsimp only
  rw [if_pos (List.mem_singleton.mp member)]

include terminated in
private theorem found_moreStatements
    (nonneg : 0 ≤ start) (none : ¬ input.Ahead [.endOfText] start)
    (forward : start < next) (inside : next ≤ input.tokens.size)
    (firstFound : Found input (.statement calls) start [first] next)
    (restFound : Found input (.statements calls) next rest finish) :
    Found input (.statements calls) start (first :: rest) finish := by
  rintro steps s rfl rfl enoughSteps
  obtain ⟨steps, rfl⟩ := exists_fewer (by omega) enoughSteps
  obtain ⟨_, ⟨⟩, given⟩ := firstFound s rfl rfl
  refine .ifNotSees terminated nonneg none ?_
  refine .bind input given fun s₁ position₁ calls₁ => ?_
  have givenRest := restFound steps s₁ position₁ calls₁ (by omega)
  exact .bind input givenRest fun s₂ position₂ _ => .pure position₂

end Statements

end Choices

include terminated off unlimited in
/-- The induction is on the derivation; each of its steps is one choice of the parser. -/
theorem Reads.found
    {part : Part} {start finish : Int} {nodes : List Node}
    (reads : Reads input (Starved input) part start nodes finish)
    (nonneg : 0 ≤ start) (inside : start ≤ input.tokens.size) :
    Found input part start nodes finish := by
  induction reads with
  | leafAtom standing =>
      rintro levels s rfl enough
      exact ⟨_, rfl, .ifSees standing (.leaf terminated standing (by decide))⟩
  | groupAtom group found =>
      exact found_groupAtom terminated off nonneg group (found nonneg inside)
  | group opening inner closing found =>
      have bound := opening.lt_size terminated (by decide)
      exact found_group terminated unlimited opening (found (by omega) (by omega)) closing
  | noAtoms none =>
      rintro levels steps s rfl enough enoughSteps
      obtain ⟨steps, rfl⟩ := exists_fewer inside enoughSteps
      exact .ifNotSees terminated nonneg none (.pure rfl)
  | moreAtoms first rest firstFound restFound =>
      have moves := first.progress terminated inside
      exact found_moreAtoms first.ahead_atomStart (moves.2.2 trivial) moves.2.1
        (firstFound nonneg inside) (restFound (by omega) moves.2.1)
  | call callee argument arguments found =>
      have bound := callee.lt_size terminated (by decide)
      exact found_call terminated unlimited nonneg callee argument (found (by omega) (by omega))
  | atomTerm atom alone found =>
      exact found_atomTerm terminated nonneg atom.ahead_atomStart alone (found nonneg inside)
  | conditionalTerm conditional found =>
      rintro levels s rfl calls enough
      obtain ⟨_, ⟨⟩, given⟩ := found nonneg inside levels s rfl enough
      obtain ⟨keyword, standing⟩ := conditional.ahead_choose
      exact ⟨_, rfl, .ifSees standing (.remembering off .conditional given)⟩
  | conditional keyword first middle last hungry firstFound middleFound lastFound =>
      have bound := keyword.lt_size terminated (by decide)
      have firstMoves := first.progress terminated (by omega)
      have middleMoves := middle.progress terminated (by omega)
      exact found_conditional terminated off unlimited nonneg keyword
        (firstFound (by omega) (by omega)) (middleFound (by omega) (by omega))
        (lastFound (by omega) (by omega)) hungry firstMoves.1 middleMoves.1 middleMoves.2.1
  | sign token operand found =>
      have bound := token.lt_size terminated (by decide)
      exact found_sign terminated unlimited token (found (by omega) (by omega))
  | unsigned none term found =>
      rintro levels steps s rfl rfl enough enoughSteps
      obtain ⟨steps, rfl⟩ := exists_fewer inside enoughSteps
      obtain ⟨_, ⟨⟩, given⟩ := found nonneg inside levels s rfl rfl enough
      exact ⟨_, rfl, .ifNotSees terminated nonneg none given⟩
  | chain first rest firstFound restFound =>
      have moves := first.progress terminated inside
      exact found_chain moves.1 moves.2.1 (firstFound nonneg inside)
        (restFound (by omega) moves.2.1)
  | noRest none =>
      rintro levels steps s rfl rfl enough enoughSteps
      obtain ⟨steps, rfl⟩ := exists_fewer inside enoughSteps
      exact ⟨_, rfl, .ifNotSees terminated nonneg none (.pure rfl)⟩
  | @moreRest tier _ _ _ _ _ _ _ _ operator right rest rightFound restFound =>
      have bound := operator.lt_size terminated (by cases tier <;> decide)
      have moves := right.progress terminated (by omega)
      exact found_moreRest terminated unlimited operator moves.1 moves.2.1
        (rightFound (by omega) (by omega)) (restFound (by omega) moves.2.1)
  | noNames none =>
      rintro steps s rfl enoughSteps
      obtain ⟨steps, rfl⟩ := exists_fewer inside enoughSteps
      exact .ifNotSees terminated nonneg none (.pure rfl)
  | moreNames name rest found =>
      have bound := name.lt_size terminated (by decide)
      exact found_moreNames terminated name (found (by omega) (by omega))
  | functionDef keyword name parameters equals body parametersFound bodyFound =>
      have nameBound := name.lt_size terminated (by decide)
      have moves := parameters.progress terminated (by omega)
      have equalsBound := equals.lt_size terminated (by decide)
      exact found_functionDef terminated unlimited keyword name
        (parametersFound (by omega) (by omega)) equals (bodyFound (by omega) (by omega))
  | variableDecl keyword name equals value found =>
      have bound := equals.lt_size terminated (by decide)
      exact found_variableDecl terminated unlimited keyword name equals
        (found (by omega) (by omega))
  | outputStmt keyword value found =>
      have bound := keyword.lt_size terminated (by decide)
      exact found_outputStmt terminated unlimited keyword (found (by omega) (by omega))
  | noStatements ahead => exact found_noStatements inside ahead
  | moreStatements none first rest firstFound restFound =>
      have moves := first.progress terminated inside
      exact found_moreStatements terminated nonneg none (moves.2.2 trivial) moves.2.1
        (firstFound nonneg inside) (restFound (by omega) moves.2.1)

include terminated off unlimited in
theorem starves_starved : Starves input (Starved input) :=
  fun _ _ ready enough diagnostic after failed =>
    (starved_iff terminated off unlimited ready.nonneg ready.inside enough).mpr
      ⟨diagnostic, after, failed⟩

include terminated off unlimited in
/-- Without limits and memory, exactly what is derived is read. -/
theorem program_iff_derives
    (root : Node) :
    (program input State.start).1 = .ok root ↔ Derives input (Starved input) root := by
  constructor
  · intro read
    have ended := ends_program terminated (starves_starved terminated off unlimited) Ready.start
      rfl rfl
    generalize program input State.start = outcome at read ended
    cases ended with
    | value _ derived =>
        cases read
        exact derived
    | diagnostic => cases read
  · rintro ⟨statements, finish, token, reads, ⟨ahead, _⟩, rfl⟩
    have given := reads.found terminated off unlimited (Int.le_refl 0) (Int.natCast_nonneg _)
      (input.budget State.start) State.start rfl rfl (by dsimp only [Input.budget, State.start]; omega)
    obtain ⟨after, read, rfl⟩ := given
    rw [program_apply, programWithin, bind_apply_ok read, bind_apply, leaf_apply, ahead]
    rfl

end Completeness

end RomanScript.Grammar
