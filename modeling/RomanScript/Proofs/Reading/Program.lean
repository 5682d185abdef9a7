import RomanScript.Proofs.Reading.Soundness

/-!
# Programs are derived

The statements and the program as a whole, read from any state whose remembered nodes were derived.
For a list of tokens whose last one ends the text, a tree is derived or a diagnostic is given.
-/

namespace RomanScript.Grammar

open Reading

variable {input : Input} {starved : Int → Prop}

private theorem ends_namesWithin
    (terminated : input.Terminated) (steps : Nat) {s : State} (ready : Ready input starved s)
    (enoughSteps : input.tokens.size - s.position < (steps : Int)) :
    Ends input starved (Reads input starved .names s.position) (namesWithin input steps s) := by
  induction steps generalizing s with
  | zero =>
      have inside := ready.inside
      omega
  | succ steps inductionHypothesis =>
      unfold namesWithin
      refine .ifSees terminated ready (fun name standing => ?_) fun none => ?_
      · rw [bind_apply_ok (leaf_of_at standing terminated (by decide))]
        have passed := ready.passed standing terminated (by decide)
        refine .bind (inductionHypothesis passed (by dsimp only; omega)) ?_
        intro rest last readyLast _ derived
        exact .pure readyLast (.moreNames standing derived)
      · exact .pure ready (.noNames none)

section Statements

variable (terminated : input.Terminated) (starves : Starves input starved)

include terminated starves

/-- What is read behind the keyword of a definition is derived as one. -/
theorem ends_functionDef
    {s : State} (ready : Ready input starved s) :
    Ends input starved
      (fun node finish => input.Ahead [.keyword .define] s.position →
        Reads input starved (.statement s.calls) s.position [.rule .statement [node]] finish)
      (functionDef input s) := by
  unfold functionDef
  refine .bind (.token terminated ready) ?_
  rintro _ s₀ ready₀ calls₀ ⟨keyword, ahead, rfl, _, position₀⟩
  refine .bind (.expect terminated (by decide) ready₀) ?_
  rintro _ s₁ ready₁ calls₁ ⟨name, standingName, rfl, position₁⟩
  refine .bind (ends_namesWithin terminated (input.budget s₁) ready₁
    (by dsimp only [Input.budget]; omega)) ?_
  intro parameters s₂ ready₂ calls₂ derivedNames
  refine .bind (.expect terminated (by decide) ready₂) ?_
  rintro _ s₃ ready₃ calls₃ ⟨equals, standingEquals, rfl, position₃⟩
  refine .bind (parses_wholeExpression terminated starves s₃ ready₃ ready₃.nonneg) ?_
  intro body s₄ ready₄ _ derivedBody
  refine .pure ready₄ ?_
  rintro ⟨token, standing⟩
  cases ahead.symm.trans standing.1
  rw [position₀ (standing.lt_size terminated (by decide))] at standingName position₁
  rw [position₁] at derivedNames
  rw [position₃, calls₃, calls₂, calls₁, calls₀] at derivedBody
  exact .functionDef standing standingName derivedNames standingEquals derivedBody

/-- What is read behind the keyword of a declaration is derived as one. -/
theorem ends_variableDecl
    {s : State} (ready : Ready input starved s) :
    Ends input starved
      (fun node finish => input.Ahead [.keyword .declare] s.position →
        Reads input starved (.statement s.calls) s.position [.rule .statement [node]] finish)
      (variableDecl input s) := by
  unfold variableDecl
  refine .bind (.token terminated ready) ?_
  rintro _ s₀ ready₀ calls₀ ⟨keyword, ahead, rfl, _, position₀⟩
  refine .bind (.expect terminated (by decide) ready₀) ?_
  rintro _ s₁ ready₁ calls₁ ⟨name, standingName, rfl, position₁⟩
  refine .bind (.expect terminated (by decide) ready₁) ?_
  rintro _ s₂ ready₂ calls₂ ⟨equals, standingEquals, rfl, position₂⟩
  refine .bind (parses_wholeExpression terminated starves s₂ ready₂ ready₂.nonneg) ?_
  intro value s₃ ready₃ _ derivedValue
  refine .pure ready₃ ?_
  rintro ⟨token, standing⟩
  cases ahead.symm.trans standing.1
  rw [position₀ (standing.lt_size terminated (by decide))] at standingName position₁
  rw [position₁] at standingEquals
  rw [position₂, position₁, calls₂, calls₁, calls₀] at derivedValue
  exact .variableDecl standing standingName standingEquals derivedValue

/-- What is read behind the keyword of an output is derived as one. -/
theorem ends_outputStmt
    {s : State} (ready : Ready input starved s) :
    Ends input starved
      (fun node finish => input.Ahead [.keyword .output] s.position →
        Reads input starved (.statement s.calls) s.position [.rule .statement [node]] finish)
      (outputStmt input s) := by
  unfold outputStmt
  refine .bind (.token terminated ready) ?_
  rintro _ s₀ ready₀ calls₀ ⟨keyword, ahead, rfl, _, position₀⟩
  refine .bind (parses_wholeExpression terminated starves s₀ ready₀ ready₀.nonneg) ?_
  intro value s₁ ready₁ _ derivedValue
  refine .pure ready₁ ?_
  rintro ⟨token, standing⟩
  cases ahead.symm.trans standing.1
  rw [position₀ (standing.lt_size terminated (by decide)), calls₀] at derivedValue
  exact .outputStmt standing derivedValue

/-- A statement of the kind that its first token begins. -/
theorem ends_statement
    {s : State} (ready : Ready input starved s) :
    Ends input starved
      (fun node finish => Reads input starved (.statement s.calls) s.position [node] finish)
      (statement input s) := by
  obtain ⟨token, ahead⟩ := ready.exists_token terminated
  rw [statement_apply, ahead]
  dsimp only
  have standing : input.At s.position [token.symbol] token := ⟨ahead, .head _⟩
  have inner : Ends input starved
      (fun node finish =>
        Reads input starved (.statement s.calls) s.position [.rule .statement [node]] finish)
      (statementFor input token.symbol s) := by
    unfold statementFor
    split_ifs with define declare output
    · exact (ends_functionDef terminated starves ready).imp
        fun _ _ derived => derived ⟨token, define ▸ standing⟩
    · exact (ends_variableDecl terminated starves ready).imp
        fun _ _ derived => derived ⟨token, declare ▸ standing⟩
    · exact (ends_outputStmt terminated starves ready).imp
        fun _ _ derived => derived ⟨token, output ▸ standing⟩
    · exact .refuse terminated _ ready
  refine .bind inner ?_
  intro node last readyLast _ derived
  exact .pure readyLast derived

theorem ends_statementsWithin
    (steps : Nat) {s : State} (ready : Ready input starved s)
    (enoughSteps : input.tokens.size - s.position < (steps : Int)) :
    Ends input starved (Reads input starved (.statements s.calls) s.position)
      (statementsWithin input steps s) := by
  induction steps generalizing s with
  | zero =>
      have inside := ready.inside
      omega
  | succ steps inductionHypothesis =>
      unfold statementsWithin
      refine .ifSees terminated ready (fun token standing => ?_) fun none => ?_
      · exact .pure ready (.noStatements ⟨token, standing⟩)
      · refine .bind (ends_statement terminated starves ready) ?_
        intro first behind readyBehind callsBehind derivedFirst
        have moves := derivedFirst.progress terminated ready.inside
        have forward := moves.2.2 trivial
        have rest := inductionHypothesis readyBehind (by omega)
        rw [callsBehind] at rest
        refine .bind rest ?_
        intro nodes last readyLast _ derivedRest
        exact .pure readyLast (.moreStatements none derivedFirst derivedRest)

/-- From the position on, statements up to a token that ends the text are read. -/
theorem ends_programFrom
    {s : State} (ready : Ready input starved s) :
    Ends input starved
      (fun root _ => ∃ statements finish token,
        Reads input starved (.statements s.calls) s.position statements finish ∧
          input.At finish [.endOfText] token ∧ root = .rule .program (statements ++ [.leaf token]))
      (program input s) := by
  unfold program
  refine .bind (ends_statementsWithin terminated starves (input.budget s) ready
    (by dsimp only [Input.budget]; omega)) ?_
  intro nodes behind readyBehind _ derived
  refine .bind (.token terminated readyBehind) ?_
  rintro _ last readyLast _ ⟨finish, ahead, rfl, _⟩
  obtain ⟨token, standing⟩ := derived.ahead_endOfText
  cases ahead.symm.trans standing.1
  exact .pure readyLast ⟨nodes, behind.position, finish, derived, standing, rfl⟩

theorem ends_program
    {s : State} (ready : Ready input starved s) (begins : s.position = 0) (calls : s.calls = true) :
    Ends input starved (fun root _ => Derives input starved root) (program input s) := by
  have ended := ends_programFrom terminated starves ready
  rw [begins, calls] at ended
  exact ended

end Statements

theorem program_ne_misuse
    (terminated : input.Terminated) {s : State} (ready : Ready input (fun _ => True) s)
    (begins : s.position = 0) (calls : s.calls = true) (misuse : Misuse) :
    (program input s).1 ≠ .error (.misuse misuse) := by
  have ended := ends_program terminated (fun _ _ _ _ _ _ _ => trivial) ready begins calls
  generalize program input s = outcome at ended ⊢
  cases ended <;> nofun

end RomanScript.Grammar

namespace RomanScript

def Token.row (pieces : List (Symbol × String)) : List Token :=
  pieces.zipIdx.map fun (piece, column) => ⟨piece.1, piece.2, 1, column⟩

namespace Tree

open Grammar

theorem terminated_of_getLast?
    {tokens : List Token} (finished : (tokens.getLast?.map (·.symbol)) = some .endOfText)
    (path : Option String) (settings : Settings) :
    (Input.mk tokens.toArray path settings).Terminated := by
  obtain ⟨token, last, isEnd⟩ := Option.map_eq_some_iff.mp finished
  exact ⟨token, by simpa using last, isEnd⟩

theorem ofTokensUnder_of_finished
    {settings : Settings} {tokens : List Token} {path : Option String}
    (finished : (tokens.getLast?.map (·.symbol)) = some .endOfText) :
    ofTokensUnder settings tokens path =
      (program ⟨tokens.toArray, path, settings⟩ State.start).1.map fun root => ⟨root, path⟩ := by
  unfold ofTokensUnder
  rw [if_pos finished]
  rcases program ⟨tokens.toArray, path, settings⟩ State.start with ⟨_ | _, _⟩ <;> rfl

theorem exists_of_ofTokensUnder_ok
    {settings : Settings} {tokens : List Token} {path : Option String} {tree : Tree}
    (accepted : ofTokensUnder settings tokens path = .ok tree) :
    (tokens.getLast?.map (·.symbol)) = some .endOfText ∧ tree.path = path ∧
      ∃ after, program ⟨tokens.toArray, path, settings⟩ State.start = (.ok tree.root, after) := by
  by_cases finished : (tokens.getLast?.map (·.symbol)) = some .endOfText
  · rw [ofTokensUnder_of_finished finished] at accepted
    refine ⟨finished, ?_⟩
    generalize program ⟨tokens.toArray, path, settings⟩ State.start = outcome at accepted ⊢
    rcases outcome with ⟨failure | root, after⟩
    · cases accepted
    · cases accepted
      exact ⟨rfl, after, rfl⟩
  · rw [ofTokensUnder, if_neg finished] at accepted
    cases accepted

theorem exists_root_of_isOk
    {tokens : List Token} {path : Option String} (isOk : (ofTokens tokens path).isOk = true) :
    ∃ root, ofTokens tokens path = .ok ⟨root, path⟩ := by
  cases read : ofTokens tokens path with
  | error failure =>
      rw [read] at isOk
      cases isOk
  | ok tree =>
      obtain ⟨_, rfl, _⟩ := exists_of_ofTokensUnder_ok read
      exact ⟨tree.root, rfl⟩

/-- Under all settings, tokens that end the text give a derived tree or a diagnostic. -/
theorem ofTokensUnder_cases
    {settings : Settings} {tokens : List Token} {path : Option String} {starved : Int → Prop}
    (finished : (tokens.getLast?.map (·.symbol)) = some .endOfText)
    (starves : Starves ⟨tokens.toArray, path, settings⟩ starved) :
    (∃ root, ofTokensUnder settings tokens path = .ok ⟨root, path⟩ ∧
        Derives ⟨tokens.toArray, path, settings⟩ starved root) ∨
      ∃ diagnostic, ofTokensUnder settings tokens path = .error (.diagnostic diagnostic) := by
  have terminated := terminated_of_getLast? finished path settings
  have ready : Ready (.mk tokens.toArray path settings) starved State.start := Ready.start
  have ended := ends_program terminated starves ready rfl rfl
  rw [ofTokensUnder_of_finished finished]
  generalize program ⟨tokens.toArray, path, settings⟩ State.start = outcome at ended ⊢
  cases ended with
  | @value root last _ derived => exact .inl ⟨root, rfl, derived⟩
  | @diagnostic diagnostic last _ => exact .inr ⟨diagnostic, rfl⟩

def oneOutput : List Token :=
  Token.row [(.keyword .output, "Grafo"), (.numeral, "I"), (.endOfText, "")]

def oneOutputRoot : Node :=
  .rule .program
    [.rule .statement [.rule .outputStmt
      [.leaf ⟨.keyword .output, "Grafo", 1, 0⟩, .leaf ⟨.numeral, "I", 1, 1⟩]],
    .leaf ⟨.endOfText, "", 1, 2⟩]

/-- A conditional within the operand of a conditional, beneath a sign. Its call of `x` would be
followed by too many signs, so a level is refused; without calls it is read. -/
def refusedCall : List Token :=
  Token.row ([(.keyword .output, "Grafo"), (.keyword .choose, "Sinon"), (.minus, "-"),
      (.keyword .choose, "Sinon"), (.numeral, "I"), (.numeral, "I"), (.identifier, "x"),
      (.numeral, "I"), (.plus, "+")] ++ List.replicate 61 (.plus, "+") ++
    [(.numeral, "I"), (.numeral, "I"), (.endOfText, "")])

theorem exists_root_refusedCall : ∃ root, ofTokens refusedCall none = .ok ⟨root, none⟩ :=
  exists_root_of_isOk (by decide +kernel)

end Tree

end RomanScript
