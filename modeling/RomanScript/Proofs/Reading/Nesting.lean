import RomanScript.Proofs.Reading.Walked

/-!
# Nodes respect the limits

Every node of an expression that is read respects the limits on the level on which it ends up, even
if it is recalled. For what is recalled fits: it was read before on a level that was at least as
deep.
-/

namespace RomanScript.Grammar

open Reading

variable {input : Input} {memory : List Remembered} {attempt : Prop} {base level : Nat}
  {begins ends : Phase} {position : Int} {symbol : Symbol} {s : State}

/-- A rule that is recalled at a position leads from one phase to another. -/
structure Recalls (input : Input) (base level : Nat) (symbol : Symbol) (position : Int)
    (begins ends : Phase) : Prop where
  respects : ∀ memory, Fits input memory base ⟨position, begins⟩ →
    Respects memory symbol position level
  unread : ∀ memory, Fits input memory base ⟨position, begins⟩ →
    recallFrom memory symbol position = none → Before memory position
  forth : ∀ memory node finish, Fits input memory base ⟨position, begins⟩ →
    recallFrom memory symbol position = some (.ok (node, finish)) →
      Fits input memory base ⟨finish, ends⟩
  back : ∀ memory node finish, recallFrom memory symbol position = some (.ok (node, finish)) →
    node.Within level → position < finish → Fits input memory base ⟨finish, ends⟩ →
      Fits input memory base ⟨position, begins⟩
  failed : ∀ memory diagnostic, recallFrom memory symbol position = some (.error diagnostic) →
    Fits input memory base ⟨position, begins⟩

private theorem Opens.before
    (opens : Opens input symbol position) (passes : Passes input memory position)
    (unread : recallFrom memory symbol position = none) : Before memory position := by
  rcases passes with other | ⟨other, opensOther, remembered⟩ | before
  · exact absurd other (opens.ahead.not_ahead (by decide))
  · cases opens.unique opensOther
    rw [unread] at remembered
    cases remembered
  · exact before

private theorem recalls_fresh
    (opens : Opens input symbol position) :
    Recalls input base level symbol position (.fresh level) .done where
  respects _ fits := fits.sound.1 symbol opens
  unread _ fits unread := opens.before fits.sound.2 unread
  forth _ _ _ fits recalls := fits.goes (.recalled opens recalls)
  back _ _ _ recalls within forward fits := fits_of_recalled opens recalls within forward fits
  failed _ _ recalls := fits_of_failed opens recalls

private theorem recalls_argument
    (opening : input.Ahead [.openParen] position) (less : base ≤ level) :
    Recalls input base level .group position (.call level) (.call level) where
  respects _ fits := fits.sound (.group opening)
  unread _ fits unread := by
    have behind := fits.goes .called
    have fresh := behind.goes (.operand (opening.not_ahead (by decide)) (Nat.le_refl base))
    exact Opens.before (.group opening) fresh.sound.2 unread
  forth _ _ _ fits recalls := fits.goes (.recalledArgument (.group opening) recalls (Nat.le_refl _))
  back _ _ _ recalls within forward fits :=
    fits_of_recalledArgument opening less recalls within forward fits
  failed _ _ recalls := fits_of_failedArgument opening recalls

private theorem recallFrom_cons_self
    (result : Except Diagnostic (Node × Int)) (refused : Int) :
    recallFrom (⟨symbol, position, result, refused⟩ :: memory) symbol position = some result := by
  simp [recallFrom]

/-- What is remembered from behind a position does not change what is recalled there. -/
theorem recallFrom_append_of_lt
    {more : List Remembered} (behind : ∀ entry ∈ more, position < entry.start) :
    recallFrom (more ++ memory) symbol position = recallFrom memory symbol position := by
  induction more with
  | nil => rfl
  | cons entry rest inductionHypothesis =>
      obtain ⟨entryBehind, restBehind⟩ := List.forall_mem_cons.mp behind
      rw [List.cons_append, recallFrom_cons_of_ne (Int.ne_of_gt entryBehind),
        inductionHypothesis restBehind]

/-- A remembered rule respects the limits, whether it is recalled or read. It is read only if
nothing was remembered from there on. -/
theorem walked_remembering
    (remembers : input.settings.remembers = true) {body : Reading Node}
    (recalls : Recalls input base level symbol s.position begins ends)
    (fits : Fits input s.memory base ⟨s.position, begins⟩)
    (ended : Before s.memory s.position →
      Leaves s
        (fun node s' => node.Within level ∧ s.position < s'.position ∧
          Fits input s'.memory base ⟨s'.position, ends⟩)
        (fun _ => True)
        (body s)) :
    Walked input attempt base begins ends s (fun node _ => node.Within level)
      (remembering input symbol body s) := by
  have lookedUp : (if input.settings.remembers then s.recall? symbol s.position else none) =
      recallFrom s.memory symbol s.position := by
    rw [remembers]
    rfl
  unfold remembering
  rw [lookedUp]
  cases recalled : recallFrom s.memory symbol s.position with
  | some result =>
      rcases result with diagnostic | ⟨node, finish⟩
      · exact .failure rfl fits
      · obtain ⟨within, forward⟩ := recalls.respects s.memory fits node finish recalled
        refine Leaves.value (adds_of_eq rfl) (Int.le_of_lt forward)
          ⟨within, recalls.forth s.memory node finish fits recalled, ?_⟩
        intro _ more behind fitsMore
        have same : recallFrom (more ++ s.memory) symbol s.position = some (.ok (node, finish)) := by
          rw [recallFrom_append_of_lt fun entry member =>
            Int.lt_of_lt_of_le forward (behind entry member), recalled]
        exact recalls.back _ node finish same within forward fitsMore
  | none =>
      have left := ended (recalls.unread s.memory fits recalled)
      dsimp only
      generalize body s = outcome at left ⊢
      cases left with
      | misuse => exact .misuse
      | @diagnostic diagnostic s' adds _ =>
          refine Leaves.diagnostic (adds.remember symbol _) fun _ => ?_
          exact recalls.failed _ diagnostic (recallFrom_cons_self _ _)
      | @value node s' adds forward holds =>
          obtain ⟨within, further, fitsBehind⟩ := holds
          refine Leaves.value (adds.remember symbol _) forward
            ⟨within, fitsBehind.cons further, ?_⟩
          intro _ more behind fitsMore
          have same : recallFrom (more ++ (s'.remember s symbol (.ok (node, s'.position))).memory)
              symbol s.position = some (.ok (node, s'.position)) := by
            rw [recallFrom_append_of_lt fun entry member =>
              Int.lt_of_lt_of_le further (behind entry member)]
            exact recallFrom_cons_self _ _
          exact recalls.back _ node s'.position same within further fitsMore

structure TakesAtom (input : Input) (attempt : Prop) (base level : Nat) (position : Int)
    (begins ends : Phase) : Prop where
  leaf : input.Ahead [.numeral, .identifier, .keyword .input] position →
    ∀ memory, Fits input memory base ⟨position, begins⟩ →
      Fits input memory base ⟨position + 1, ends⟩
  leafBack : input.Ahead [.numeral, .identifier, .keyword .input] position → attempt →
    ∀ memory, Fits input memory base ⟨position + 1, ends⟩ →
      Fits input memory base ⟨position, begins⟩
  group : input.Ahead [.openParen] position →
    Recalls input base level .group position begins ends

/-- A leaf is a name or not. -/
theorem ahead_identifier_or
    (ahead : input.Ahead [.numeral, .identifier, .keyword .input] position) :
    input.Ahead [.identifier] position ∨ input.Ahead [.numeral, .keyword .input] position := by
  obtain ⟨token, found, member⟩ := ahead
  by_cases isName : token.symbol = .identifier
  · exact .inl ⟨token, found, List.mem_singleton.mpr isName⟩
  · exact .inr ⟨token, found, by simpa [isName] using member⟩

/-- As a term of its own, a name that begins a call is an atom only where calls are not
recognised. -/
theorem takesAtom_fresh
    (notCalled : attempt → input.Ahead [.identifier] position →
      ¬ input.Ahead atomStart (position + 1)) :
    TakesAtom input attempt base level position (.fresh level) .done where
  leaf ahead _ fits := by
    rcases ahead_identifier_or ahead with name | other
    · exact (fits.goes (.name name (Nat.le_refl _))).goes .called
    · exact fits.goes (.leaf other)
  leafBack ahead tried _ fits := by
    rcases ahead_identifier_or ahead with name | other
    · exact fits_of_name name (fits_of_called (notCalled tried name) fits)
    · exact fits_of_leaf other fits
  group opening := recalls_fresh (.group opening)

private theorem takesAtom_argument
    (less : base ≤ level) :
    TakesAtom input attempt base level position (.call level) (.call level) where
  leaf ahead _ fits := fits.goes (.argument ahead (Nat.le_refl _))
  leafBack ahead _ _ fits := fits_of_argument ahead less fits
  group opening := recalls_argument opening less

/-! ## Expressions -/

/-- An expression, wherever it begins, respects the limits on its level. -/
def Obeys (input : Input) (expression : Reading Node) : Prop :=
  ∀ (s : State) (level : Nat), level ≤ s.nesting + 1 →
    Fits input s.memory level ⟨s.position, .fresh level⟩ →
      Walked input (s.calls = true) level (.fresh level) .done s
        (fun node finish => node.Within level ∧ ¬ input.Ahead binary finish) (expression s)

def stops : List Symbol := .closeParen :: boundary

/-- Where an expression is over, nothing is remembered from there on. -/
theorem Fits.before
    (fits : Fits input memory base ⟨position, .done⟩) (ahead : input.Ahead stops position) :
    Before memory position := by
  have fresh := fits.goes (.operand (ahead.not_ahead (by decide)) (Nat.le_refl base))
  rcases fresh.sound.2 with other | ⟨symbol, opens, _⟩ | before
  · exact absurd other (ahead.not_ahead (by decide))
  · exact absurd opens.ahead (ahead.not_ahead (by decide))
  · exact before

/-- The branch is made, or a diagnostic is given. -/
theorem leaves_expressionRule
    (limited : input.settings.limited = true) {values : Node → State → Prop} {children : List Node}
    (holds : (Node.rule symbol children).height ≤ heightLimit → values (.rule symbol children) s) :
    Leaves s values (fun _ => True) (expressionRule input symbol children s) := by
  rw [expressionRule_apply]
  split_ifs with exceeds
  · exact .diagnostic (adds_of_eq rfl) trivial
  · exact .value (adds_of_eq rfl) (Int.le_refl _)
      (holds (Nat.le_of_not_lt fun high => exceeds ⟨limited, high⟩))

private theorem leaves_closeParen
    (terminated : input.Terminated) {base : Nat}
    (fits : Fits input s.memory base ⟨s.position, .done⟩) (limit : level ≤ nestingLimit) :
    Leaves s (fun node s' => node.Within level ∧ Before s'.memory s'.position) (fun _ => True)
      (expect input .closeParen s) := by
  refine ifSees_cases (fun _ _ => .misuse) (fun token standing => ?_) fun _ => ?_
  · have before := fits.before (.mono ⟨token, standing⟩ (by decide))
    rw [leaf_of_at standing terminated (by decide)]
    have forward : s.position ≤ s.position + 1 := Int.le_add_one (Int.le_refl _)
    exact .value (adds_of_eq rfl) forward ⟨Node.within_leaf limit, before.mono forward⟩
  · rw [refuse_apply]
    cases input.tokenAt? s.position with
    | none => exact .misuse
    | some token => exact .diagnostic (adds_of_eq rfl) trivial

section Expressions

variable {expression : Reading Node} [Keeps input expression] (terminated : input.Terminated)
  (limited : input.settings.limited = true) (obeys : Obeys input expression)

include terminated limited obeys

/-- A group is read only where nothing was remembered from there on, and that holds behind it. -/
theorem leaves_group
    {opening : Token} (standing : input.At s.position [.openParen] opening)
    (before : Before s.memory s.position) (shallow : level ≤ s.nesting)
    (limit : level ≤ nestingLimit) :
    Leaves s
      (fun node s' => node.Within level ∧ s.position < s'.position ∧ Before s'.memory s'.position)
      (fun _ => True) (group input expression s) := by
  unfold group
  rw [visit_bind]
  generalize (Symbol.group, s.position) :: s.visits = visits
  have taken : leaf input { s with visits := visits } =
      (.ok (.leaf opening), { s with position := s.position + 1, visits := visits }) :=
    leaf_of_at standing terminated (by decide)
  rw [bind_apply_ok taken]
  have forward : s.position ≤ s.position + 1 := Int.le_add_one (Int.le_refl _)
  have inner := obeys { s with position := s.position + 1, calls := true, visits := visits }
    (level + 1) (by dsimp only; omega) (fits_of_before (before.mono forward))
  have called := Walked.leaves
    (Walked.withCalls (s := { s with position := s.position + 1, visits := visits }) inner)
  refine Leaves.of_later (Leaves.bind input called ?_) forward rfl
  rintro inner s₁ _ _ forward₁ ⟨⟨within, _⟩, fits⟩
  refine Leaves.bind input (leaves_closeParen terminated fits limit) ?_
  rintro closing s₂ _ _ forward₂ ⟨withinClosing, beforeLast⟩
  refine leaves_expressionRule limited fun low => ⟨?_, ?_, beforeLast⟩
  · exact Node.within_rule limit low (Node.withinAll_cons (Node.within_leaf limit)
      (Node.withinAll_cons within (Node.withinAll_cons withinClosing Node.withinAll_nil)))
  · dsimp only at forward₁
    omega

omit terminated limited in
private theorem walked_operands
    (calls : Bool) (shallow : base ≤ s.nesting + 1)
    (fits : Fits input s.memory base ⟨s.position, .fresh base⟩) :
    Walked input (calls = true) base (.fresh base) .done s
      (fun nodes _ => ∀ node ∈ nodes, node.Within base) (operands expression calls s) := by
  unfold operands
  refine .withCalls ?_
  refine .bind (obeys { s with calls := calls } base shallow fits) ?_
  rintro condition s₁ grown₁ _ ⟨within₁, unseen₁⟩ fits₁
  have nesting₁ := grown₁.nesting
  have second := obeys s₁ base (by dsimp only at nesting₁; omega)
    (fits₁.goes (.operand unseen₁ (Nat.le_refl base)))
  rw [grown₁.calls] at second
  refine .bind (second.begin fun _ => fits_of_operand unseen₁) ?_
  rintro consequence s₂ grown₂ _ ⟨within₂, unseen₂⟩ fits₂
  have nesting₂ := grown₂.nesting
  have third := obeys s₂ base (by dsimp only at nesting₁; omega)
    (fits₂.goes (.operand unseen₂ (Nat.le_refl base)))
  rw [grown₂.calls, grown₁.calls] at third
  refine .bind (third.begin fun _ => fits_of_operand unseen₂) ?_
  rintro alternative s₃ _ _ ⟨within₃, _⟩ fits₃
  refine .pure ?_ fits₃
  simp [within₁, within₂, within₃]

omit terminated limited in
/-- The operands are read again, without calls, where what the first attempt left fits as well. -/
theorem leaves_bothAttempts
    (shallow : base ≤ s.nesting + 1) (fits : Fits input s.memory base ⟨s.position, .fresh base⟩) :
    Leaves s
      (fun nodes s' => (∀ node ∈ nodes, node.Within base) ∧
        Fits input s'.memory base ⟨s'.position, .done⟩)
      (fun _ => True)
      (orElseAgain (operands expression true) (operands expression false) s) := by
  have first : Leaves s
      (fun nodes s' => (∀ node ∈ nodes, node.Within base) ∧
        Fits input s'.memory base ⟨s'.position, .done⟩)
      (fun s' => Fits input s'.memory base ⟨s.position, .fresh base⟩)
      (operands expression true s) :=
    Leaves.imp (walked_operands obeys true shallow fits)
      (fun _ _ _ _ holds => ⟨holds.1, holds.2.1⟩) fun _ _ fits => fits rfl
  refine Leaves.orElseAgain input first fun s' grown fitsAgain => ?_
  have nesting := grown.nesting
  have second := walked_operands (s := { s' with position := s.position }) obeys false
    (by dsimp only; omega) fitsAgain
  exact second.leaves

/-- A conditional, too, is read only where nothing was remembered from there on. Its operands leave
behind what fits on their own level, and so what fits on any lower one. -/
theorem leaves_conditional
    {keyword : Token} (standing : input.At s.position [.keyword .choose] keyword)
    (before : Before s.memory s.position) (less : base ≤ level) (shallow : level ≤ s.nesting)
    (limit : level ≤ nestingLimit) :
    Leaves s
      (fun node s' => node.Within level ∧ s.position < s'.position ∧
        Fits input s'.memory base ⟨s'.position, .done⟩)
      (fun _ => True) (conditional input expression s) := by
  unfold conditional
  rw [visit_bind]
  generalize (Symbol.conditional, s.position) :: s.visits = visits
  have taken : leaf input { s with visits := visits } =
      (.ok (.leaf keyword), { s with position := s.position + 1, visits := visits }) :=
    leaf_of_at standing terminated (by decide)
  rw [bind_apply_ok taken]
  have forward : s.position ≤ s.position + 1 := Int.le_add_one (Int.le_refl _)
  have deeper : ((level + 1 : Nat) : Int) ≤ s.nesting + 1 := by omega
  have parts := leaves_bothAttempts (s := { s with position := s.position + 1, visits := visits })
    obeys deeper (fits_of_before (before.mono forward))
  refine Leaves.of_later (Leaves.bind input parts ?_) forward rfl
  rintro nodes s₁ _ _ forward₁ ⟨within, fits⟩
  dsimp only at forward₁
  refine leaves_expressionRule limited fun low => ⟨?_, by omega, fits.lower_base (by omega)⟩
  refine Node.within_rule limit low (Node.withinAll_cons (Node.within_leaf limit)
    (Node.withinAll_of_forall (fun later after => ?_) within))
  obtain ⟨index, rfl⟩ := Nat.exists_eq_add_of_le' after
  rfl

private theorem walked_atom
    (takes : TakesAtom input attempt base level s.position begins ends)
    (shallow : level ≤ s.nesting) (limit : level ≤ nestingLimit)
    (remembers : input.settings.remembers = true)
    (fits : Fits input s.memory base ⟨s.position, begins⟩) :
    Walked input attempt base begins ends s (fun node _ => node.Within level)
      (atom input expression s) := by
  unfold atom
  refine ifSees_cases (fun _ _ => .misuse) (fun token standing => ?_) fun _ => ?_
  · exact .leaf terminated standing (by decide) (Node.within_leaf limit)
      (takes.leaf ⟨token, standing⟩ _ fits) (takes.leafBack ⟨token, standing⟩)
  · refine ifSees_cases (fun _ _ => .misuse) (fun token standing => ?_) fun _ => ?_
    · refine walked_remembering remembers (takes.group ⟨token, standing⟩) fits fun before => ?_
      have group := leaves_group terminated limited obeys standing before shallow limit
      refine Leaves.imp group ?_ fun _ _ _ => trivial
      rintro node s' _ _ ⟨within, further, beforeBehind⟩
      exact ⟨within, further, fits_of_before beforeBehind⟩
    · exact .refuse _ fits

variable (remembers : input.settings.remembers = true)

include remembers

/-- The arguments of a call lie on the level of the call. -/
theorem walked_atoms
    (steps : Nat) {s : State} (less : base ≤ level) (shallow : level ≤ s.nesting)
    (limit : level ≤ nestingLimit) (fits : Fits input s.memory base ⟨s.position, .call level⟩) :
    Walked input attempt base (.call level) .done s
      (fun nodes _ => ∀ node ∈ nodes, node.Within level) (atoms input expression steps s) := by
  induction steps generalizing s with
  | zero => exact .misuse
  | succ steps inductionHypothesis =>
      unfold atoms
      refine ifSees_cases (fun _ _ => .misuse) (fun token standing => ?_) fun unseen => ?_
      · have takes : TakesAtom input attempt base level s.position (.call level) (.call level) :=
          takesAtom_argument less
        have first := walked_atom terminated limited obeys takes shallow limit remembers fits
        refine .bind first fun node s₁ grown₁ _ within fits₁ => ?_
        have rest := inductionHypothesis (Int.le_trans shallow grown₁.nesting) fits₁
        refine .bind rest fun nodes s₂ _ _ withinRest fits₂ => ?_
        exact .pure (List.forall_mem_cons.mpr ⟨within, withinRest⟩) fits₂
      · refine Walked.begin (.pure ?_ (fits.goes .called)) fun _ => fits_of_called unseen
        exact fun _ member => absurd member List.not_mem_nil

private theorem walked_call
    {name : Token} (standing : input.At s.position [.identifier] name) (less : base ≤ level)
    (shallow : level ≤ s.nesting) (limit : level ≤ nestingLimit)
    (fits : Fits input s.memory base ⟨s.position, .fresh level⟩) :
    Walked input attempt base (.fresh level) .done s (fun node _ => node.Within level)
      (call input expression s) := by
  unfold call
  have callee : Walked input attempt base (.fresh level) (.call level) s
      (fun node _ => node.Within level) (leaf input s) :=
    .leaf terminated standing (by decide) (Node.within_leaf limit)
      (fits.goes (.name ⟨name, standing⟩ (Nat.le_refl _)))
      fun _ _ => fits_of_name ⟨name, standing⟩
  refine .bind callee fun callee s₁ grown₁ _ withinCallee fits₁ => ?_
  refine .bind (walked_atoms terminated limited obeys remembers (input.budget s₁) less
    (Int.le_trans shallow grown₁.nesting) limit fits₁) fun nodes s₂ _ _ within fits₂ => ?_
  refine .expressionRule limited (fun low => ?_) fits₂
  exact Node.within_rule limit low (Node.withinAll_of_forall (fun _ _ => rfl)
    (List.forall_mem_cons.mpr ⟨withinCallee, within⟩))

private theorem walked_term
    (less : base ≤ level) (shallow : level ≤ s.nesting) (limit : level ≤ nestingLimit)
    (fits : Fits input s.memory base ⟨s.position, .fresh level⟩) :
    Walked input (s.calls = true) base (.fresh level) .done s (fun node _ => node.Within level)
      (term input expression s) := by
  unfold term
  refine ifSees_cases (fun _ _ => .misuse) (fun token standing => ?_) fun _ => ?_
  · refine walked_remembering remembers (recalls_fresh (.conditional ⟨token, standing⟩)) fits
      fun before => ?_
    exact leaves_conditional terminated limited obeys standing before less shallow limit
  · refine ifSeesCall_cases (fun _ _ => .misuse) (fun token standing => ?_) fun notCalled => ?_
    · exact walked_call terminated limited obeys remembers standing less shallow limit fits
    · exact walked_atom terminated limited obeys (takesAtom_fresh notCalled) shallow limit
        remembers fits

/-- Every sign leads one level deeper. -/
theorem walked_signedWithin
    (steps : Nat) {s : State} (less : base ≤ level) (shallow : level ≤ s.nesting)
    (limit : level ≤ nestingLimit) (fits : Fits input s.memory base ⟨s.position, .fresh level⟩) :
    Walked input (s.calls = true) base (.fresh level) .done s (fun node _ => node.Within level)
      (signedWithin input expression steps s) := by
  induction steps generalizing s level with
  | zero => exact .misuse
  | succ steps inductionHypothesis =>
      unfold signedWithin
      refine ifSees_cases (fun _ _ => .misuse) (fun token standing => ?_) fun _ => ?_
      · have sign : Walked input (s.calls = true) base (.fresh level) (.fresh (level + 1)) s
            (fun node _ => node.Within level) (leaf input s) :=
          .leaf terminated standing (by decide) (Node.within_leaf limit)
            (fits.goes (.sign ⟨token, standing⟩ (Nat.le_refl _)))
            fun _ _ => fits_of_sign ⟨token, standing⟩
        refine .bind sign fun sign s₁ grown₁ _ withinSign fits₁ => ?_
        have nesting₁ := grown₁.nesting
        refine .nested limited fits₁ fun entered => ?_
        have operand : Walked input (s₁.deeper.calls = true) base (.fresh (level + 1)) .done
            s₁.deeper (fun node _ => node.Within (level + 1))
            (signedWithin input expression steps s₁.deeper) :=
          inductionHypothesis (by omega) (by dsimp only [State.deeper]; omega) (by omega) fits₁
        have calls : s₁.deeper.calls = s.calls := grown₁.calls
        rw [calls] at operand
        refine .bind operand fun operand s₂ _ _ within fits₂ => ?_
        refine .expressionRule limited (fun low => ?_) fits₂
        exact Node.within_rule limit low (Node.withinAll_cons withinSign
          (Node.withinAll_cons within Node.withinAll_nil))
      · exact walked_term terminated limited obeys remembers less shallow limit fits

end Expressions

/-- An operand of a chain respects the limits on the level of the expression, and the token behind
it is not one of the operators that bind more tightly. -/
def Operates (input : Input) (base : Nat) (tighter : List Symbol) (operand : Reading Node) : Prop :=
  ∀ s : State, base ≤ s.nesting → Fits input s.memory base ⟨s.position, .fresh base⟩ →
    Walked input (s.calls = true) base (.fresh base) .done s
      (fun node finish => node.Within base ∧ ¬ input.Ahead tighter finish) (operand s)

theorem levelOfChild_tier (tier : Tier) (index level : Nat) :
    Node.levelOfChild tier.symbol index level = level := by
  cases tier <;> rfl

section Chains

variable {operand : Reading Node} [Keeps input operand] {tighter : List Symbol}
  (terminated : input.Terminated) (limited : input.settings.limited = true)
  (operates : Operates input base tighter operand)

include terminated limited operates

private theorem walked_chainWithin
    (tier : Tier) (steps : Nat) {s : State} {left : Node} (shallow : base ≤ s.nesting)
    (limit : base ≤ nestingLimit) (withinLeft : left.Within base)
    (unseen : ¬ input.Ahead tighter s.position)
    (fits : Fits input s.memory base ⟨s.position, .done⟩) :
    Walked input (s.calls = true) base .done .done s
      (fun node finish => node.Within base ∧
        ¬ input.Ahead tighter finish ∧ ¬ input.Ahead tier.operators finish)
      (chainWithin input tier.symbol tier.operators operand steps left s) := by
  induction steps generalizing s left with
  | zero => exact .misuse
  | succ steps inductionHypothesis =>
      unfold chainWithin
      refine ifSees_cases (fun _ _ => .misuse) (fun token standing => ?_) fun none => ?_
      · have isBinary : input.Ahead binary s.position :=
          .mono ⟨token, standing⟩ tier.operators_binary
        have operator : Walked input (s.calls = true) base .done (.fresh base) s
            (fun node _ => node.Within base) (leaf input s) :=
          .leaf terminated standing (by cases tier <;> decide) (Node.within_leaf limit)
            (fits.goes (.operator isBinary (Nat.le_refl _)))
            fun _ _ => fits_of_operator isBinary
        refine .bind operator fun operator s₁ grown₁ _ withinOperator fits₁ => ?_
        have nesting₁ := grown₁.nesting
        have right := operates s₁ (by omega) fits₁
        rw [grown₁.calls] at right
        refine .bind right ?_
        rintro right s₂ grown₂ _ ⟨withinRight, unseen₂⟩ fits₂
        have nesting₂ := grown₂.nesting
        have joined : Walked input (s.calls = true) base .done .done s₂
            (fun node finish => node.Within base ∧ ¬ input.Ahead tighter finish)
            (expressionRule input tier.symbol [left, operator, right] s₂) := by
          refine .expressionRule limited (fun low => ⟨?_, unseen₂⟩) fits₂
          refine Node.within_rule limit low
            (Node.withinAll_of_forall (fun index _ => levelOfChild_tier tier index base) ?_)
          simp [withinLeft, withinOperator, withinRight]
        refine .bind joined ?_
        rintro joined s₃ grown₃ _ ⟨withinJoined, unseen₃⟩ fits₃
        have nesting₃ := grown₃.nesting
        have rest := inductionHypothesis (by omega) withinJoined unseen₃ fits₃
        rw [grown₃.calls, grown₂.calls, grown₁.calls] at rest
        exact rest
      · exact .pure ⟨withinLeft, unseen, none⟩ fits

private theorem operates_chain
    (tier : Tier) (limit : base ≤ nestingLimit) :
    Operates input base (tighter ++ tier.operators)
      (chain input tier.symbol tier.operators operand) := by
  intro s shallow fits
  unfold chain
  refine .bind (operates s shallow fits) ?_
  rintro first s₁ grown₁ _ ⟨within, unseen⟩ fits₁
  have rest := walked_chainWithin terminated limited operates tier (input.budget s₁)
    (Int.le_trans shallow grown₁.nesting) limit within unseen fits₁
  rw [grown₁.calls] at rest
  refine rest.imp fun node finish _ holds => ⟨holds.1, ?_⟩
  rintro ⟨token, found, member⟩
  rcases List.mem_append.mp member with inTighter | inOperators
  · exact holds.2.1 ⟨token, found, inTighter⟩
  · exact holds.2.2 ⟨token, found, inOperators⟩

end Chains

/-- An expression within the levels that are left, to be read with memory and within limits. -/
theorem obeys_expressionWithin
    (terminated : input.Terminated) (full : input.settings = .full) (levels : Nat) :
    Obeys input (expressionWithin input levels) := by
  induction levels with
  | zero => exact fun _ _ _ _ => .misuse
  | succ levels inductionHypothesis =>
      intro s level shallow fits
      have limited : input.settings.limited = true := by rw [full]; rfl
      have remembers : input.settings.remembers = true := by rw [full]; rfl
      refine .nested limited fits fun entered => ?_
      have limit : level ≤ nestingLimit := by omega
      have signed : Operates input level [] (signed input (expressionWithin input levels)) :=
        fun s' shallow' fits' => (walked_signedWithin terminated limited inductionHypothesis
          remembers (input.budget s') (Nat.le_refl level) shallow' limit fits').imp
            fun _ _ _ within => ⟨within, fun ⟨_, _, member⟩ => List.not_mem_nil member⟩
      have product := operates_chain terminated limited signed .product limit
      have sum := operates_chain terminated limited product .sum limit
      refine (sum s.deeper shallow fits).imp fun node finish _ holds => ⟨holds.1, fun ahead => ?_⟩
      exact holds.2 (ahead.mono (by decide))

theorem obeys_wholeExpression
    (terminated : input.Terminated) (full : input.settings = .full) :
    Obeys input (wholeExpression input) :=
  fun s => obeys_expressionWithin terminated full (input.budget s) s

end RomanScript.Grammar
