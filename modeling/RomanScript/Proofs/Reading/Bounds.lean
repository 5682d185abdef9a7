import RomanScript.Proofs.Reading.Nesting
import RomanScript.Proofs.Reading.Phrased

/-!
# Accepted trees respect the limits

The statements of a program are read one after another, each from where nothing is remembered. So
their expressions respect the limits, and the heights recorded in the tree are the true ones.
-/

namespace RomanScript.Grammar

open Reading

variable {input : Input} {s : State}

private theorem leaves_leaf
    (before : Before s.memory s.position) :
    Leaves s (fun node s' => node.height ≤ heightLimit ∧ Before s'.memory s'.position)
      (fun _ => True) (leaf input s) := by
  rw [leaf_apply]
  cases input.tokenAt? s.position with
  | none => exact .misuse
  | some token =>
      have low : (Node.leaf token).height ≤ heightLimit := (by decide : 1 ≤ heightLimit)
      dsimp only [Input.advanced]
      split
      · have forward : s.position ≤ s.position + 1 := Int.le_add_one (Int.le_refl _)
        exact .value (adds_of_eq rfl) forward ⟨low, before.mono forward⟩
      · exact .value (adds_of_eq rfl) (Int.le_refl _) ⟨low, before⟩

private theorem leaves_expect
    (symbol : Symbol) (before : Before s.memory s.position) :
    Leaves s (fun node s' => node.height ≤ heightLimit ∧ Before s'.memory s'.position)
      (fun _ => True) (expect input symbol s) := by
  refine ifSees_cases (fun _ _ => .misuse) (fun _ _ => leaves_leaf before) fun _ => ?_
  rw [refuse_apply]
  cases input.tokenAt? s.position with
  | none => exact .misuse
  | some token => exact .diagnostic (adds_of_eq rfl) trivial

private theorem leaves_namesWithin
    (steps : Nat) {s : State} (before : Before s.memory s.position) :
    Leaves s
      (fun nodes s' => (∀ node ∈ nodes, node.height ≤ heightLimit) ∧
        Before s'.memory s'.position)
      (fun _ => True) (namesWithin input steps s) := by
  induction steps generalizing s with
  | zero => exact .misuse
  | succ steps inductionHypothesis =>
      unfold namesWithin
      refine ifSees_cases (fun _ _ => .misuse) (fun _ _ => ?_) fun _ => ?_
      · refine Leaves.bind input (leaves_leaf before) ?_
        rintro first s₁ _ _ _ ⟨low, before₁⟩
        refine Leaves.bind input (inductionHypothesis before₁) ?_
        rintro rest s₂ _ _ _ ⟨lowRest, before₂⟩
        exact .value (adds_of_eq rfl) (Int.le_refl _)
          ⟨List.forall_mem_cons.mpr ⟨low, lowRest⟩, before₂⟩
      · exact .value (adds_of_eq rfl) (Int.le_refl _)
          ⟨fun _ member => absurd member List.not_mem_nil, before⟩

section Statements

variable (terminated : input.Terminated) (full : input.settings = .full)

include terminated full

private theorem leaves_wholeExpression
    (nonneg : 0 ≤ s.nesting) (before : Before s.memory s.position) :
    Leaves s
      (fun node s' => node.Within 1 ∧ Fits input s'.memory 1 ⟨s'.position, .done⟩)
      (fun _ => True) (wholeExpression input s) := by
  have shallow : ((1 : Nat) : Int) ≤ s.nesting + 1 := by omega
  have walked := obeys_wholeExpression terminated full s 1 shallow (fits_of_before before)
  exact Leaves.imp walked.leaves (fun _ _ _ _ holds => ⟨holds.1.1, holds.2⟩) fun _ _ holds => holds

private theorem leaves_functionDef
    (nonneg : 0 ≤ s.nesting) (before : Before s.memory s.position) :
    Leaves s
      (fun node s' => (Node.rule .statement [node]).Bounded ∧
        Fits input s'.memory 1 ⟨s'.position, .done⟩)
      (fun _ => True) (functionDef input s) := by
  unfold functionDef
  refine Leaves.bind input (leaves_leaf before) ?_
  rintro keyword s₁ grown₁ _ _ ⟨lowKeyword, before₁⟩
  refine Leaves.bind input (leaves_expect .identifier before₁) ?_
  rintro name s₂ grown₂ _ _ ⟨lowName, before₂⟩
  refine Leaves.bind input (leaves_namesWithin (input.budget s₂) before₂) ?_
  rintro parameters s₃ grown₃ _ _ ⟨lowParameters, before₃⟩
  refine Leaves.bind input (leaves_expect .equals before₃) ?_
  rintro equals s₄ grown₄ _ _ ⟨lowEquals, before₄⟩
  have nonneg₄ : 0 ≤ s₄.nesting :=
    Int.le_trans nonneg (((grown₁.trans grown₂).trans grown₃).trans grown₄).nesting
  refine Leaves.bind input (leaves_wholeExpression terminated full nonneg₄ before₄) ?_
  rintro body s₅ _ _ _ ⟨within, fits⟩
  have low : ∀ child ∈ keyword :: name :: parameters ++ [equals, body],
      child.height ≤ heightLimit := by
    simp only [List.cons_append, List.forall_mem_cons, List.forall_mem_append]
    exact ⟨lowKeyword, lowName, lowParameters, lowEquals, within.height_le, by simp⟩
  have last : (keyword :: name :: parameters ++ [equals, body]).getLast? = some body := by
    rw [List.getLast?_append]
    rfl
  exact .value (adds_of_eq rfl) (Int.le_refl _) ⟨Node.bounded_statement last low within, fits⟩

private theorem leaves_variableDecl
    (nonneg : 0 ≤ s.nesting) (before : Before s.memory s.position) :
    Leaves s
      (fun node s' => (Node.rule .statement [node]).Bounded ∧
        Fits input s'.memory 1 ⟨s'.position, .done⟩)
      (fun _ => True) (variableDecl input s) := by
  unfold variableDecl
  refine Leaves.bind input (leaves_leaf before) ?_
  rintro keyword s₁ grown₁ _ _ ⟨lowKeyword, before₁⟩
  refine Leaves.bind input (leaves_expect .identifier before₁) ?_
  rintro name s₂ grown₂ _ _ ⟨lowName, before₂⟩
  refine Leaves.bind input (leaves_expect .equals before₂) ?_
  rintro equals s₃ grown₃ _ _ ⟨lowEquals, before₃⟩
  have nonneg₃ : 0 ≤ s₃.nesting :=
    Int.le_trans nonneg ((grown₁.trans grown₂).trans grown₃).nesting
  refine Leaves.bind input (leaves_wholeExpression terminated full nonneg₃ before₃) ?_
  rintro value s₄ _ _ _ ⟨within, fits⟩
  have low : ∀ child ∈ [keyword, name, equals, value], child.height ≤ heightLimit := by
    simp [lowKeyword, lowName, lowEquals, within.height_le]
  exact .value (adds_of_eq rfl) (Int.le_refl _) ⟨Node.bounded_statement rfl low within, fits⟩

private theorem leaves_outputStmt
    (nonneg : 0 ≤ s.nesting) (before : Before s.memory s.position) :
    Leaves s
      (fun node s' => (Node.rule .statement [node]).Bounded ∧
        Fits input s'.memory 1 ⟨s'.position, .done⟩)
      (fun _ => True) (outputStmt input s) := by
  unfold outputStmt
  refine Leaves.bind input (leaves_leaf before) ?_
  rintro keyword s₁ grown₁ _ _ ⟨lowKeyword, before₁⟩
  have nonneg₁ : 0 ≤ s₁.nesting := Int.le_trans nonneg grown₁.nesting
  refine Leaves.bind input (leaves_wholeExpression terminated full nonneg₁ before₁) ?_
  rintro value s₂ _ _ _ ⟨within, fits⟩
  have low : ∀ child ∈ [keyword, value], child.height ≤ heightLimit := by
    simp [lowKeyword, within.height_le]
  exact .value (adds_of_eq rfl) (Int.le_refl _) ⟨Node.bounded_statement rfl low within, fits⟩

/-- The keyword of a statement ends the expression before it, so that nothing is remembered from
there on. -/
theorem leaves_statement
    (nonneg : 0 ≤ s.nesting) (fits : Fits input s.memory 1 ⟨s.position, .done⟩) :
    Leaves s
      (fun node s' => node.Bounded ∧ Fits input s'.memory 1 ⟨s'.position, .done⟩)
      (fun _ => True) (statement input s) := by
  rw [statement_apply]
  cases ahead : input.tokenAt? s.position with
  | none => exact .misuse
  | some token =>
      have inner : Leaves s
          (fun node s' => (Node.rule .statement [node]).Bounded ∧
            Fits input s'.memory 1 ⟨s'.position, .done⟩)
          (fun _ => True) (statementFor input token.symbol s) := by
        have before : token.symbol ∈ boundary → Before s.memory s.position := fun member =>
          fits.before ⟨token, ahead, List.mem_cons_of_mem _ member⟩
        unfold statementFor
        split_ifs with define declare output
        · exact leaves_functionDef terminated full nonneg (before (by rw [define]; decide))
        · exact leaves_variableDecl terminated full nonneg (before (by rw [declare]; decide))
        · exact leaves_outputStmt terminated full nonneg (before (by rw [output]; decide))
        · rw [refuse_apply, ahead]
          exact .diagnostic (adds_of_eq rfl) trivial
      refine Leaves.bind input inner ?_
      rintro node s₁ _ _ _ ⟨bounded, fits₁⟩
      exact .value (adds_of_eq rfl) (Int.le_refl _) ⟨bounded, fits₁⟩

private theorem leaves_statementsWithin
    (steps : Nat) {s : State} (nonneg : 0 ≤ s.nesting)
    (fits : Fits input s.memory 1 ⟨s.position, .done⟩) :
    Leaves s
      (fun nodes s' => (∀ node ∈ nodes, node.Bounded) ∧ input.Ahead [.endOfText] s'.position)
      (fun _ => True) (statementsWithin input steps s) := by
  induction steps generalizing s with
  | zero => exact .misuse
  | succ steps inductionHypothesis =>
      unfold statementsWithin
      refine ifSees_cases (fun _ _ => .misuse) (fun token standing => ?_) fun _ => ?_
      · exact .value (adds_of_eq rfl) (Int.le_refl _)
          ⟨fun _ member => absurd member List.not_mem_nil, token, standing⟩
      · refine Leaves.bind input (leaves_statement terminated full nonneg fits) ?_
        rintro first s₁ grown₁ _ _ ⟨bounded, fits₁⟩
        have rest := inductionHypothesis (Int.le_trans nonneg grown₁.nesting) fits₁
        refine Leaves.bind input rest ?_
        rintro nodes s₂ _ _ _ ⟨boundedRest, atEnd⟩
        exact .value (adds_of_eq rfl) (Int.le_refl _)
          ⟨List.forall_mem_cons.mpr ⟨bounded, boundedRest⟩, atEnd⟩

/-- A program is at most three higher than expressions may be. -/
theorem leaves_program
    (nonneg : 0 ≤ s.nesting) (before : Before s.memory s.position) :
    Leaves s
      (fun root _ => root.height ≤ heightLimit + 3 ∧
        ∀ statement ∈ root.statements, statement.Bounded)
      (fun _ => True) (program input s) := by
  unfold program
  have statements := leaves_statementsWithin terminated full (input.budget s) nonneg
    (fits_of_before before)
  refine Leaves.bind input statements ?_
  rintro nodes s₁ _ _ _ ⟨bounded, finish, found, isEnd⟩
  have last : Leaves s₁ (fun node _ => node = .leaf finish) (fun _ => True) (leaf input s₁) := by
    rw [leaf_apply, found]
    dsimp only [Input.advanced]
    split
    · exact .value (adds_of_eq rfl) (Int.le_add_one (Int.le_refl _)) rfl
    · exact .value (adds_of_eq rfl) (Int.le_refl _) rfl
  refine Leaves.bind input last ?_
  rintro _ s₂ _ _ _ rfl
  refine .value (adds_of_eq rfl) (Int.le_refl _) ⟨?_, ?_⟩
  · refine Node.rule_height_le (List.forall_mem_append.mpr ⟨?_, ?_⟩)
    · intro statement member
      obtain ⟨_, _, _, low⟩ := bounded statement member
      exact low
    · exact List.forall_mem_singleton.mpr (by decide : 1 ≤ heightLimit + 2)
  · intro statement member
    obtain ⟨inChildren, isStatement⟩ := List.mem_filter.mp member
    rcases List.mem_append.mp inChildren with inNodes | isFinish
    · exact bounded statement inNodes
    · cases List.mem_singleton.mp isFinish
      rw [Node.symbol, List.mem_singleton.mp isEnd] at isStatement
      cases isStatement

end Statements

end RomanScript.Grammar

namespace RomanScript.Tree

open Grammar

/-- In an accepted tree no expression is nested more than 64 levels deep or is higher than 256, no
matter whether its nodes were read or recalled, and all recorded heights are true. -/
theorem ofTokens_within_limits
    {tokens : List Token} {path : Option String} {tree : Tree}
    (accepted : ofTokens tokens path = .ok tree) :
    (∀ node ∈ tree.root.walk, node.height = node.trueHeight) ∧
      (∀ statement ∈ tree.statements, ∃ expression, statement.expression? = some expression ∧
        ∀ entry ∈ expression.levelled 1, entry.1 ≤ 64 ∧ entry.2.trueHeight ≤ 256) ∧
      tree.root.height ≤ 259 := by
  obtain ⟨finished, _, after, read⟩ := exists_of_ofTokensUnder_ok accepted
  have terminated := terminated_of_getLast? finished path .full
  have derived : Ends ⟨tokens.toArray, path, .full⟩ (fun _ => True) _ _ :=
    ends_program terminated (fun _ _ _ _ _ _ _ => trivial) Ready.start rfl rfl
  have before : Before State.start.memory State.start.position := fun _ member =>
    absurd member List.not_mem_nil
  have left := leaves_program terminated rfl (Int.le_refl 0 : 0 ≤ State.start.nesting) before
  rw [read] at derived left
  cases derived with
  | value _ derives =>
  cases left with
  | value _ _ limits =>
  have exact := derives.exact
  refine ⟨exact, fun statement member => ?_, limits.1⟩
  obtain ⟨expression, ends, within, _⟩ := limits.2 statement member
  refine ⟨expression, ends, fun entry inExpression => ?_⟩
  have isChild : statement ∈ tree.root.children := (List.mem_filter.mp member).1
  have below : entry.2 ∈ expression.walk := by
    rw [← Node.levelled_walk 1 expression]
    exact List.mem_map_of_mem inExpression
  have height := (exact.child isChild).expression ends entry.2 below
  obtain ⟨levelLimit, low⟩ := within entry inExpression
  exact ⟨levelLimit, height ▸ low⟩

theorem ofTokens_within_limits_refusedCall :
    ∃ tree, ofTokens refusedCall none = .ok tree ∧
      (∀ node ∈ tree.root.walk, node.height = node.trueHeight) ∧
        (∀ statement ∈ tree.statements, ∃ expression, statement.expression? = some expression ∧
          ∀ entry ∈ expression.levelled 1, entry.1 ≤ 64 ∧ entry.2.trueHeight ≤ 256) ∧
        tree.root.height ≤ 259 := by
  obtain ⟨root, accepted⟩ := exists_root_refusedCall
  exact ⟨⟨root, none⟩, accepted, ofTokens_within_limits accepted⟩

end RomanScript.Tree
