import RomanScript.Node

/-!
Readings of a list of tokens. A reading looks at the tokens from a position on, moves the position,
and ends with a value or a failure; either way it leaves a state for the next reading. The state
also counts how deeply expressions are nested, says whether calls are recognised, and remembers
what was read where.
-/

namespace RomanScript.Grammar

/-- Parentheses, operands of conditionals and signs may be nested this deeply. -/
def nestingLimit : Nat := 64

def heightLimit : Nat := 256

/-- What a grammar can be told to leave out: the look-up of remembered results and the two
limits. -/
structure Settings where
  remembers : Bool
  limited : Bool
  deriving DecidableEq, Repr

def Settings.full : Settings := ⟨true, true⟩

structure Input where
  tokens : Array Token
  path : Option String
  settings : Settings

/-- What a rule gave at a position: the failure, or the node and the position behind it. The levels
that were refused meanwhile are recorded too. -/
structure Remembered where
  symbol : Symbol
  start : Int
  result : Except Diagnostic (Node × Int)
  refused : Int

/-- The state between readings. The visits list the positions at which the body of a remembered
rule has begun, the latest first; the refusals count how often a limit was crossed. -/
structure State where
  position : Int
  calls : Bool
  nesting : Int
  memory : List Remembered
  visits : List (Symbol × Int)
  refusals : Nat

def State.start : State := ⟨0, true, 0, [], [], 0⟩

def State.recall? (state : State) (symbol : Symbol) (start : Int) :
    Option (Except Diagnostic (Node × Int)) :=
  (state.memory.find? fun entry => entry.symbol == symbol && entry.start == start).map (·.result)

/-- The state that remembers one more result, reached from `before` by the body of its rule. -/
def State.remember (state before : State) (symbol : Symbol)
    (result : Except Diagnostic (Node × Int)) : State :=
  { state with
    memory :=
      ⟨symbol, before.position, result, state.nesting - before.nesting⟩ :: state.memory }

/-- The token at an index: behind the end stands the last token, and a negative index counts from
the end. -/
def Input.tokenAt? (input : Input) (index : Int) : Option Token :=
  if input.tokens.size ≤ index then input.tokens.back?
  else if 0 ≤ index then input.tokens[index.toNat]?
  else if 0 ≤ index + input.tokens.size then input.tokens[(index + input.tokens.size).toNat]?
  else none

/-- More steps than any repetition makes from this state on before it ends: each step moves the
position or nests more deeply. -/
def Input.budget (input : Input) (state : State) : Nat :=
  (input.tokens.size - state.position).toNat + (nestingLimit + 1 - state.nesting).toNat + 2

/-- A reading takes a state to a value or a failure, and to the state it leaves. -/
def Reading (α : Type) : Type := State → Except Failure α × State

namespace Reading

variable {α β : Type}

def done (value : α) : Reading α := fun state => (.ok value, state)

def fail (failure : Failure) : Reading α := fun state => (.error failure, state)

def andThen (first : Reading α) (next : α → Reading β) : Reading β := fun state =>
  match first state with
  | (.ok value, after) => next value after
  | (.error failure, after) => (.error failure, after)

instance : Monad Reading where
  pure := done
  bind := andThen

@[simp] theorem pure_apply (value : α) (state : State) :
    (pure value : Reading α) state = (.ok value, state) := rfl

theorem bind_apply (first : Reading α) (next : α → Reading β) (state : State) :
    (first >>= next) state =
      match first state with
      | (.ok value, after) => next value after
      | (.error failure, after) => (.error failure, after) := rfl

theorem bind_apply_ok {first : Reading α} {next : α → Reading β} {state after : State} {value : α}
    (succeeded : first state = (.ok value, after)) :
    (first >>= next) state = next value after := by
  rw [bind_apply, succeeded]

/-- A reading followed, whether it fails or not, by a change of the state it leaves. -/
def afterwards (reading : Reading α) (change : State → State) : Reading α := fun state =>
  match reading state with
  | (result, after) => (result, change after)

def state : Reading State := fun state => (.ok state, state)

def withBudget (input : Input) (repetition : Nat → Reading α) : Reading α := fun state =>
  repetition (input.budget state) state

/-- A reading with calls recognised or not, as before afterwards. -/
def withCalls (calls : Bool) (reading : Reading α) : Reading α := fun state =>
  (reading.afterwards fun after => { after with calls := state.calls }) { state with calls := calls }

/-- How an attempt from a position goes on: if it failed with a diagnostic, another reading begins
at that position, and if that fails with a diagnostic as well, the first one stands. -/
def retry (second : Reading α) (position : Int) :
    Except Failure α × State → Except Failure α × State
  | (.error (.diagnostic diagnostic), after) =>
    match second { after with position := position } with
    | (.error (.diagnostic _), last) => (.error (.diagnostic diagnostic), last)
    | outcome => outcome
  | outcome => outcome

/-- A reading and, if it fails with a diagnostic, another from the same position. -/
def orElseAgain (first second : Reading α) : Reading α := fun state =>
  retry second state.position (first state)

end Reading

open Reading

/-! ## Single tokens -/

variable (input : Input)

def peek (offset : Int) : Reading Token := fun state =>
  match input.tokenAt? (state.position + offset) with
  | some token => (.ok token, state)
  | none => (.error (.misuse .noToken), state)

/-- The token at the position, which moves past it unless it is behind the end already. -/
def advance : Reading Token := do
  let token ← peek input 0
  fun state =>
    (.ok token,
      if state.position < input.tokens.size then { state with position := state.position + 1 }
      else state)

def sees (symbols : List Symbol) : Reading Bool := do
  let token ← peek input 0
  return symbols.contains token.symbol

def unexpected (wanted : String) : Reading Diagnostic := do
  let token ← peek input 0
  return ⟨.unexpectedToken wanted token.symbol token.text, token.line, token.column, input.path⟩

def refuse {α : Type} (wanted : String) : Reading α := do
  let diagnostic ← unexpected input wanted
  fail (.diagnostic diagnostic)

def leaf : Reading Node := do
  let token ← advance input
  return .leaf token

def expect (symbol : Symbol) : Reading Node := do
  if ← sees input [symbol] then leaf input
  else refuse input symbol.name

def refuseLimit {α : Type} (limit : Nat) (line column : Int) : Reading α := fun state =>
  (.error (.diagnostic ⟨.tooDeep limit, line, column, input.path⟩),
    { state with refusals := state.refusals + 1 })

/-- A branch for an expression, refused at its last child if it is too high. -/
def expressionRule (symbol : Symbol) (children : List Node) : Reading Node :=
  let node := Node.rule symbol children
  if input.settings.limited && heightLimit < node.height then
    refuseLimit input heightLimit
      ((children.getLast?.map Node.line).getD 1) ((children.getLast?.map Node.column).getD 0)
  else done node

/-- One level of nesting more, refused at the token ahead if that is one too many. -/
def enter : Reading Unit := do
  fun state => (.ok (), { state with nesting := state.nesting + 1 })
  let nested ← state
  if input.settings.limited && nestingLimit < nested.nesting then
    let token ← peek input 0
    refuseLimit input nestingLimit token.line token.column

/-- A reading one level deeper. A level that was refused stays counted. -/
def nested {α : Type} (reading : Reading α) : Reading α := do
  enter input
  reading.afterwards fun after => { after with nesting := after.nesting - 1 }

/-! ## Memory -/

/-- The state in which a result is recalled: behind the node, or where the state was. -/
def recalled : Except Diagnostic (Node × Int) → State → Except Failure Node × State
  | .ok (node, finish), state => (.ok node, { state with position := finish })
  | .error diagnostic, state => (.error (.diagnostic diagnostic), state)

/-- The outcome of the body of a rule, which is remembered unless it is a misuse. -/
def recorded (symbol : Symbol) (before : State) :
    Except Failure Node × State → Except Failure Node × State
  | (.ok node, after) => (.ok node, after.remember before symbol (.ok (node, after.position)))
  | (.error (.diagnostic diagnostic), after) =>
    (.error (.diagnostic diagnostic), after.remember before symbol (.error diagnostic))
  | (.error failure, after) => (.error failure, after)

/-- The body of a rule, read at most once at every position and afterwards recalled: the node with
the position behind it, or the diagnostic with the position left alone. -/
def remembering (symbol : Symbol) (body : Reading Node) : Reading Node := fun state =>
  match if input.settings.remembers then state.recall? symbol state.position else none with
  | some result => recalled result state
  | none => recorded symbol state (body state)

/-- The first step in the body of a remembered rule, which lists where it begins. -/
def visit (symbol : Symbol) : Reading Unit := fun state =>
  (.ok (), { state with visits := (symbol, state.position) :: state.visits })

theorem visit_bind {α : Type} (symbol : Symbol) (next : Reading α) (state : State) :
    (visit symbol >>= fun _ => next) state =
      next { state with visits := (symbol, state.position) :: state.visits } := rfl

end RomanScript.Grammar
