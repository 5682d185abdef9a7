import Mathlib.Tactic.SplitIfs
import RomanScript.Grammar.Statement

/-!
# What single readings do

The readings of one token and the counting of levels, as equations: each gives the outcome and the
state that is left, so that later proofs step through a rule without opening these readings.
-/

namespace RomanScript.Grammar

open Reading

theorem exists_of_bind_ok
    {α β : Type} {first : Reading α} {next : α → Reading β} {state after : State} {value : β}
    (succeeded : (first >>= next) state = (.ok value, after)) :
    ∃ early between,
      first state = (.ok early, between) ∧ next early between = (.ok value, after) := by
  rw [bind_apply] at succeeded
  generalize first state = outcome at succeeded ⊢
  rcases outcome with ⟨failure | early, between⟩
  · cases succeeded
  · exact ⟨early, between, rfl, succeeded⟩

variable (input : Input)

private theorem peek_apply (offset : Int) (state : State) :
    peek input offset state =
      match input.tokenAt? (state.position + offset) with
      | some token => (.ok token, state)
      | none => (.error (.misuse .noToken), state) := rfl

theorem tokenAt?_toArray
    (tokens : List Token) (path : Option String) (settings : Settings) {position : Int}
    (nonneg : 0 ≤ position) :
    (Input.mk tokens.toArray path settings).tokenAt? position =
      if position < tokens.length then tokens[position.toNat]? else tokens.getLast? := by
  unfold Input.tokenAt?
  by_cases inside : position < tokens.length
  · rw [if_pos inside, if_neg (by simpa using inside), if_pos nonneg]
    simp
  · rw [if_neg inside, if_pos (by simpa using inside)]
    simp

/-- Inputs that differ in their paths and settings alone have the same tokens everywhere. -/
theorem eq_of_same_tokens
    {first second : Input} (tokens : second.tokens = first.tokens) {position position' : Int}
    {x y : Token} (same : position = position') (ahead : first.tokenAt? position = some x)
    (ahead' : second.tokenAt? position' = some y) : x = y := by
  have found : first.tokenAt? position = some y := by
    unfold Input.tokenAt? at ahead' ⊢
    rwa [same, ← tokens]
  exact Option.some.inj (ahead.symm.trans found)

theorem mem_of_tokenAt?
    {input : Input} {position : Int} {token : Token} (found : input.tokenAt? position = some token) :
    token ∈ input.tokens := by
  unfold Input.tokenAt? at found
  split_ifs at found
  · exact Array.mem_of_back? found
  · exact Array.mem_of_getElem? found
  · exact Array.mem_of_getElem? found

/-- A token with one of some symbols stands at a position. -/
def Input.At (position : Int) (symbols : List Symbol) (token : Token) : Prop :=
  input.tokenAt? position = some token ∧ token.symbol ∈ symbols

def Input.Ahead (symbols : List Symbol) (position : Int) : Prop :=
  ∃ token, input.At position symbols token

theorem not_ahead_of_tokenAt?
    {position : Int} {symbols : List Symbol} {token : Token}
    (ahead : input.tokenAt? position = some token) (outside : token.symbol ∉ symbols) :
    ¬ input.Ahead symbols position := by
  rintro ⟨other, found, member⟩
  rw [ahead, Option.some.injEq] at found
  exact outside (found ▸ member)

/-- The state with the token at the position passed, unless the position is behind the end. -/
def Input.advanced (state : State) : State :=
  if state.position < input.tokens.size then { state with position := state.position + 1 }
  else state

theorem advanced_nesting (state : State) : (input.advanced state).nesting = state.nesting := by
  unfold Input.advanced
  split <;> rfl

theorem advance_apply (state : State) :
    advance input state =
      match input.tokenAt? state.position with
      | some token => (.ok token, input.advanced state)
      | none => (.error (.misuse .noToken), state) := by
  have peeked := peek_apply input 0 state
  rw [Int.add_zero] at peeked
  change andThen (peek input 0) _ state = _
  simp only [andThen, peeked]
  cases input.tokenAt? state.position <;> rfl

theorem sees_apply (symbols : List Symbol) (state : State) :
    sees input symbols state =
      match input.tokenAt? state.position with
      | some token => (.ok (symbols.contains token.symbol), state)
      | none => (.error (.misuse .noToken), state) := by
  rw [sees, bind_apply, peek_apply, Int.add_zero]
  cases input.tokenAt? state.position <;> rfl

/-- What the token at the position decides. -/
theorem ifSees_apply
    {α : Type} (symbols : List Symbol) (first other : Reading α) (state : State) :
    (sees input symbols >>= fun found => if found = true then first else other) state =
      match input.tokenAt? state.position with
      | some token => if token.symbol ∈ symbols then first state else other state
      | none => (.error (.misuse .noToken), state) := by
  rw [bind_apply, sees_apply]
  cases input.tokenAt? state.position with
  | none => rfl
  | some token =>
      dsimp only
      by_cases member : token.symbol ∈ symbols
      · rw [if_pos member, if_pos (by simpa using member)]
      · rw [if_neg member, if_neg (by simpa using member)]

theorem leaf_apply (state : State) :
    leaf input state =
      match input.tokenAt? state.position with
      | some token => (.ok (.leaf token), input.advanced state)
      | none => (.error (.misuse .noToken), state) := by
  rw [leaf, bind_apply, advance_apply]
  cases input.tokenAt? state.position <;> rfl

theorem refuse_apply {α : Type} (wanted : String) (state : State) :
    (refuse input wanted : Reading α) state =
      match input.tokenAt? state.position with
      | some token =>
        (.error (.diagnostic
          ⟨.unexpectedToken wanted token.symbol token.text, token.line, token.column, input.path⟩),
          state)
      | none => (.error (.misuse .noToken), state) := by
  rw [refuse, unexpected, bind_apply, bind_apply, peek_apply, Int.add_zero]
  cases input.tokenAt? state.position <;> rfl

/-- Whether a call begins at the position, as far as the tokens tell. -/
theorem seesCall_apply (state : State) :
    seesCall input state =
      if state.calls = true then
        match input.tokenAt? state.position with
        | some token =>
          if token.symbol = .identifier then
            match input.tokenAt? (state.position + 1) with
            | some next => (.ok (atomStart.contains next.symbol), state)
            | none => (.error (.misuse .noToken), state)
          else (.ok false, state)
        | none => (.error (.misuse .noToken), state)
      else (.ok false, state) := by
  unfold seesCall
  rw [bind_apply]
  change (if (!state.calls) = true then pure false else _ : Reading Bool) state = _
  cases state.calls with
  | false => rfl
  | true =>
      change (sees input [.identifier] >>= _) state = _
      rw [bind_apply, sees_apply]
      cases input.tokenAt? state.position with
      | none => rfl
      | some token =>
          by_cases name : token.symbol = .identifier
          · simp only [name, List.contains_cons, beq_self_eq_true, Bool.true_or, Bool.not_true,
              if_true, Bool.false_eq_true, if_false]
            rw [bind_apply, peek_apply]
            cases input.tokenAt? (state.position + 1) <;> rfl
          · simp [name]
def Input.Exceeds (node : Node) : Prop :=
  input.settings.limited = true ∧ heightLimit < node.height

instance (node : Node) : Decidable (input.Exceeds node) :=
  inferInstanceAs (Decidable (_ ∧ _))

def Input.tooHigh (children : List Node) : Diagnostic :=
  ⟨.tooDeep heightLimit, (children.getLast?.map Node.line).getD 1,
    (children.getLast?.map Node.column).getD 0, input.path⟩

theorem expressionRule_apply (symbol : Symbol) (children : List Node) (state : State) :
    expressionRule input symbol children state =
      if input.Exceeds (.rule symbol children) then
        (.error (.diagnostic (input.tooHigh children)),
          { state with refusals := state.refusals + 1 })
      else (.ok (.rule symbol children), state) := by
  change (if (input.settings.limited && decide (heightLimit < (Node.rule symbol children).height)) =
    true then refuseLimit input heightLimit _ _ else done (Node.rule symbol children) :
      Reading Node) state = _
  by_cases exceeds : input.Exceeds (.rule symbol children)
  · rw [if_pos exceeds, if_pos (by simpa [Input.Exceeds] using exceeds)]
    rfl
  · rw [if_neg exceeds, if_neg (by simpa [Input.Exceeds] using exceeds)]
    rfl

/-- The next level is one too many. -/
def Input.Crosses (state : State) : Prop :=
  input.settings.limited = true ∧ (nestingLimit : Int) < state.nesting + 1

instance (state : State) : Decidable (input.Crosses state) :=
  inferInstanceAs (Decidable (_ ∧ _))

def State.deeper (state : State) : State :=
  { state with nesting := state.nesting + 1 }

def State.shallower (state : State) : State :=
  { state with nesting := state.nesting - 1 }

/-- The state in which a level was counted and then refused. -/
def State.refused (state : State) : State :=
  { state with nesting := state.nesting + 1, refusals := state.refusals + 1 }

def Input.tooNested (token : Token) : Diagnostic :=
  ⟨.tooDeep nestingLimit, token.line, token.column, input.path⟩

private theorem enter_apply (state : State) :
    enter input state =
      if input.Crosses state then
        match input.tokenAt? state.position with
        | some token => (.error (.diagnostic (input.tooNested token)), state.refused)
        | none => (.error (.misuse .noToken), state.deeper)
      else (.ok (), state.deeper) := by
  change
    (if (input.settings.limited && decide ((nestingLimit : Int) < state.nesting + 1)) = true then
        peek input 0 >>= fun token => refuseLimit input nestingLimit token.line token.column
      else pure ()) state.deeper = _
  by_cases crossed : input.Crosses state
  · rw [if_pos crossed, if_pos (by simpa [Input.Crosses] using crossed), bind_apply, peek_apply]
    simp only [Int.add_zero, State.deeper]
    cases input.tokenAt? state.position <;> rfl
  · rw [if_neg crossed, if_neg (by simpa [Input.Crosses] using crossed)]
    rfl

/-- What is recalled was remembered under the same rule and position. -/
theorem exists_entry_of_recall
    {state : State} {symbol : Symbol} {remembers : Bool} {result : Except Diagnostic (Node × Int)}
    (recalls : (if remembers then state.recall? symbol state.position else none) = some result) :
    remembers = true ∧ ∃ entry ∈ state.memory, entry.symbol = symbol ∧
      entry.start = state.position ∧ entry.result = result := by
  cases remembers with
  | false => cases recalls
  | true =>
      obtain ⟨entry, isFirst, same⟩ := Option.map_eq_some_iff.mp recalls
      have key : entry.symbol = symbol ∧ entry.start = state.position := by
        simpa using List.find?_some isFirst
      exact ⟨rfl, entry, List.mem_of_find?_eq_some isFirst, key.1, key.2, same⟩

/-- The result of an outcome as it is remembered. -/
def resultOf : Except Failure Node × State → Option (Except Diagnostic (Node × Int))
  | (.ok node, after) => some (.ok (node, after.position))
  | (.error (.diagnostic diagnostic), _) => some (.error diagnostic)
  | (.error (.misuse _), _) => none

theorem statementsWithin_succ_apply (steps : Nat) (state : State) :
    statementsWithin input (steps + 1) state =
      match input.tokenAt? state.position with
      | some token =>
        if token.symbol = .endOfText then (.ok [], state)
        else (statement input >>= fun first =>
          statementsWithin input steps >>= fun rest => pure (first :: rest)) state
      | none => (.error (.misuse .noToken), state) := by
  rw [statementsWithin, bind_apply, sees_apply]
  cases input.tokenAt? state.position with
  | none => rfl
  | some token =>
      by_cases isEnd : token.symbol = .endOfText
      · simp [isEnd]
      · simp [isEnd]

def programWithin (steps : Nat) : Reading Node := do
  let statements ← statementsWithin input steps
  let finish ← leaf input
  return .rule .program (statements ++ [finish])

theorem programWithin_root
    {steps : Nat} {state after : State} {root : Node}
    (succeeded : programWithin input steps state = (.ok root, after)) :
    root = .rule .program root.children := by
  obtain ⟨_, _, _, succeeded⟩ := exists_of_bind_ok succeeded
  obtain ⟨_, _, _, succeeded⟩ := exists_of_bind_ok succeeded
  cases succeeded
  rfl

theorem program_apply (state : State) :
    program input state = programWithin input (input.budget state) state := rfl

def statementFor (symbol : Symbol) : Reading Node :=
  if symbol = .keyword .define then functionDef input
  else if symbol = .keyword .declare then variableDecl input
  else if symbol = .keyword .output then outputStmt input
  else refuse input "a statement"

theorem statement_apply (state : State) :
    statement input state =
      match input.tokenAt? state.position with
      | some token =>
        (statementFor input token.symbol >>= fun inner => pure (.rule .statement [inner])) state
      | none => (.error (.misuse .noToken), state) := by
  unfold statement statementFor
  simp only [bind_apply, sees_apply]
  cases ahead : input.tokenAt? state.position with
  | none => rfl
  | some token =>
    simp only [ahead, List.contains_cons, List.contains_nil, Bool.or_false, beq_iff_eq]
    split_ifs <;> rfl
section Nested

variable {input} {α : Type} {state : State} (reading : Reading α)

theorem nested_of_crosses
    {token : Token} (crosses : input.Crosses state)
    (ahead : input.tokenAt? state.position = some token) :
    nested input reading state =
      (.error (.diagnostic (input.tooNested token)), state.refused) := by
  rw [nested, bind_apply, enter_apply, if_pos crosses, ahead]

theorem nested_of_crosses_none
    (crosses : input.Crosses state) (ahead : input.tokenAt? state.position = none) :
    nested input reading state = (.error (.misuse .noToken), state.deeper) := by
  rw [nested, bind_apply, enter_apply, if_pos crosses, ahead]

/-- A level that is not refused is given back when the reading ends. -/
theorem nested_of_not_crosses
    (enters : ¬ input.Crosses state) :
    nested input reading state =
      ((reading state.deeper).1, (reading state.deeper).2.shallower) := by
  rw [nested, bind_apply, enter_apply, if_neg enters]
  rfl

end Nested

end RomanScript.Grammar
