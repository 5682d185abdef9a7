import RomanScript.Proofs.Reading.Equations

/-!
# Plans of readings

How the readings of the grammar are put together out of readings of single tokens. A plan tells what
happens while its reading runs: which tokens are taken, and where each method of the grammar begins
and ends. The two indices of a plan keep the discipline on which all progress rests. A guarded
reading begins by taking the token at the position, so it stands only behind a look at that token; a
reading that moves ends behind where it began.
-/

namespace RomanScript.Grammar

open Reading

inductive Method where
  | program
  | statement
  | functionDef
  | variableDecl
  | outputStmt
  | expression
  | sum
  | product
  | signed
  | term
  | atom
  | group
  | conditional
  deriving DecidableEq, Repr

/-- What happens while a reading runs: a token is taken at a position, or a method that began at a
position ends, with the position behind what it has read unless it failed. -/
inductive Event where
  | taken (position : Int)
  | ended (method : Method) (start : Int) (finish : Option Int)
  deriving DecidableEq, Repr

def Event.ofOutcome {α : Type} (method : Method) (start : Int) :
    Except Failure α × State → Event
  | (.ok _, after) => .ended method start (some after.position)
  | (.error _, _) => .ended method start none

/-- How a reading is put together. The first index says whether it is guarded, the second whether it
moves. A remembered body begins by taking a token, before anything else can begin there. -/
inductive Plan (input : Input) : Bool → Bool → {α : Type} → Reading α → Type 1
  | pure {α : Type} (value : α) : Plan input false false (Pure.pure value)
  | unending {moves : Bool} {α : Type} :
      Plan input false moves (fail (.misuse .unending) : Reading α)
  | refuse {moves : Bool} {α : Type} (wanted : String) :
      Plan input false moves (Grammar.refuse input wanted : Reading α)
  | expressionRule (symbol : Symbol) (children : List Node) :
      Plan input false false (Grammar.expressionRule input symbol children)
  | leaf : Plan input true true (Grammar.leaf input)
  | bind {guarded begins goesOn : Bool} {α β : Type} {first : Reading α} {next : α → Reading β} :
      Plan input guarded begins first → (∀ value, Plan input false goesOn (next value)) →
      Plan input guarded (begins || goesOn) (first >>= next)
  | ifSees {guarded moves otherMoves : Bool} {α : Type} {symbols : List Symbol}
      {first other : Reading α} :
      (guarded = true → .endOfText ∉ symbols) →
      Plan input guarded moves first → Plan input false otherMoves other →
      Plan input false (moves && otherMoves)
        (Grammar.sees input symbols >>= fun found => if found = true then first else other)
  | ifSeesCall {guarded moves otherMoves : Bool} {α : Type} {first other : Reading α} :
      Plan input guarded moves first → Plan input false otherMoves other →
      Plan input false (moves && otherMoves)
        (Grammar.seesCall input >>= fun found => if found = true then first else other)
  | withBudget {guarded moves : Bool} {α : Type} {repetition : Nat → Reading α} :
      (∀ steps, Plan input guarded moves (repetition steps)) →
      Plan input guarded moves (Reading.withBudget input repetition)
  | withCalls {guarded moves : Bool} {α : Type} {reading : Reading α} (calls : Bool) :
      Plan input guarded moves reading →
      Plan input guarded moves (Reading.withCalls calls reading)
  | orElseAgain {moves : Bool} {α : Type} {first second : Reading α} :
      Plan input false moves first → Plan input false moves second →
      Plan input false moves (Reading.orElseAgain first second)
  | nested {guarded moves : Bool} {α : Type} {reading : Reading α} :
      Plan input guarded moves reading → Plan input guarded moves (Grammar.nested input reading)
  | remembering (symbol : Symbol) (method : Method) {moves : Bool} {next : Node → Reading Node} :
      (∀ opening, Plan input false moves (next opening)) →
      Plan input true true
        (Grammar.remembering input symbol (visit symbol >>= fun _ => Grammar.leaf input >>= next))
  | marked {guarded : Bool} {α : Type} {reading : Reading α} (method : Method) :
      Plan input guarded true reading → Plan input guarded true reading
  | same {guarded moves : Bool} {α : Type} {reading other : Reading α} :
      reading = other → Plan input guarded moves reading → Plan input guarded moves other

namespace Plan

variable {input : Input}

def onward {α : Type} (events : α → State → List Event) : Except Failure α × State → List Event
  | (.ok value, after) => events value after
  | (.error _, _) => []

def unlessRecalled (recalled : Option (Except Diagnostic (Node × Int))) (events : List Event) :
    List Event :=
  match recalled with
  | some _ => []
  | none => events

def run {guarded moves : Bool} {α : Type} {reading : Reading α}
    (_ : Plan input guarded moves reading) : Reading α :=
  reading

/-- What happens when the reading runs from a state. -/
def events : {guarded moves : Bool} → {α : Type} → {reading : Reading α} →
    Plan input guarded moves reading → State → List Event
  | _, _, _, _, .pure _, _ | _, _, _, _, .unending, _ | _, _, _, _, .refuse _, _
  | _, _, _, _, .expressionRule _ _, _ => []
  | _, _, _, _, .leaf, s => [.taken s.position]
  | _, _, _, _, .bind first next, s =>
    first.events s ++ onward (fun value => (next value).events) (first.run s)
  | _, _, _, _, @Plan.ifSees _ _ _ _ _ symbols _ _ _ first other, s =>
    match input.tokenAt? s.position with
    | some token => if token.symbol ∈ symbols then first.events s else other.events s
    | none => []
  | _, _, _, _, .ifSeesCall first other, s =>
    match Grammar.seesCall input s with
    | (.ok true, _) => first.events s
    | (.ok false, _) => other.events s
    | (.error _, _) => []
  | _, _, _, _, .withBudget repetition, s => (repetition (input.budget s)).events s
  | _, _, _, _, .withCalls calls reading, s => reading.events { s with calls := calls }
  | _, _, _, _, .orElseAgain first second, s =>
    first.events s ++
      match first.run s with
      | (.error (.diagnostic _), after) => second.events { after with position := s.position }
      | _ => []
  | _, _, _, _, .nested reading, s => if input.Crosses s then [] else reading.events s.deeper
  | _, _, _, _, @Plan.remembering _ symbol method _ body next, s =>
    unlessRecalled (if input.settings.remembers then s.recall? symbol s.position else none) <|
      .taken s.position ::
        onward (fun opening => (next opening).events)
          (Grammar.leaf input { s with visits := (symbol, s.position) :: s.visits }) ++
        [.ofOutcome method s.position
          ((visit symbol >>= fun _ => Grammar.leaf input >>= body) s)]
  | _, _, _, _, .marked method reading, s =>
    reading.events s ++ [.ofOutcome method s.position (reading.run s)]
  | _, _, _, _, .same _ reading, s => reading.events s

section Events

variable {guarded moves otherMoves : Bool} {α β : Type} {reading other : Reading α} {s : State}

@[simp]
theorem events_leaf : (leaf : Plan input true true _).events s = [.taken s.position] := rfl

@[simp]
theorem events_bind
    {goesOn : Bool} {next : α → Reading β} (first : Plan input guarded moves reading)
    (continued : ∀ value, Plan input false goesOn (next value)) :
    (bind first continued).events s =
      first.events s ++ onward (fun value => (continued value).events) (reading s) := rfl

@[simp]
theorem events_ifSees
    {symbols : List Symbol} (inside : guarded = true → .endOfText ∉ symbols)
    (seen : Plan input guarded moves reading) (unseen : Plan input false otherMoves other) :
    (ifSees inside seen unseen).events s =
      match input.tokenAt? s.position with
      | some token => if token.symbol ∈ symbols then seen.events s else unseen.events s
      | none => [] := rfl

@[simp]
theorem events_ifSeesCall
    (seen : Plan input guarded moves reading) (unseen : Plan input false otherMoves other) :
    (ifSeesCall seen unseen).events s =
      match Grammar.seesCall input s with
      | (.ok true, _) => seen.events s
      | (.ok false, _) => unseen.events s
      | (.error _, _) => [] := rfl

@[simp]
theorem events_withCalls (calls : Bool) (plan : Plan input guarded moves reading) :
    (withCalls calls plan).events s = plan.events { s with calls := calls } := rfl

@[simp]
theorem events_orElseAgain
    (first : Plan input false moves reading) (second : Plan input false moves other) :
    (orElseAgain first second).events s =
      first.events s ++
        match reading s with
        | (.error (.diagnostic _), after) => second.events { after with position := s.position }
        | _ => [] := rfl

@[simp]
theorem events_nested (plan : Plan input guarded moves reading) :
    (nested plan).events s = if input.Crosses s then [] else plan.events s.deeper := rfl

@[simp]
theorem events_remembering
    (symbol : Symbol) (method : Method) {next : Node → Reading Node}
    (continued : ∀ opening, Plan input false moves (next opening)) :
    (remembering symbol method continued).events s =
      unlessRecalled (if input.settings.remembers then s.recall? symbol s.position else none)
        (.taken s.position ::
          onward (fun opening => (continued opening).events)
            (Grammar.leaf input { s with visits := (symbol, s.position) :: s.visits }) ++
          [.ofOutcome method s.position
            ((visit symbol >>= fun _ => Grammar.leaf input >>= next) s)]) := rfl

@[simp]
theorem events_marked (method : Method) (plan : Plan input guarded true reading) :
    (marked method plan).events s =
      plan.events s ++ [.ofOutcome method s.position (reading s)] := rfl

end Events

def expect (symbol : Symbol) (inside : symbol ≠ .endOfText) :
    Plan input false true (Grammar.expect input symbol) :=
  .ifSees (fun _ => by simpa using inside.symm) .leaf (.refuse _)

section Expressions

variable {expression : Reading Node} (inner : Plan input false true expression)

/-- A group is read where no result for it is remembered. -/
def group :
    Plan input true true
      (Grammar.remembering input .group (Grammar.group input expression)) :=
  .remembering .group .group fun _ =>
    .bind (.withCalls true inner) fun _ =>
    .bind (expect .closeParen (by decide)) fun _ => .expressionRule _ _

def atom : Plan input false true (Grammar.atom input expression) :=
  .marked .atom <|
    .ifSees (fun _ => by decide) .leaf <|
    .ifSees (fun _ => by decide) (group inner) (.refuse _)

def atoms : (steps : Nat) → Plan input false false (Grammar.atoms input expression steps)
  | 0 => .unending
  | steps + 1 =>
    .ifSees (fun _ => by decide)
      (.bind (atom inner) fun _ => .bind (atoms steps) fun _ => .pure _) (.pure _)

def operands (calls : Bool) : Plan input false true (Grammar.operands expression calls) :=
  .withCalls calls <|
    .bind inner fun _ => .bind inner fun _ => .bind inner fun _ => .pure _

/-- A conditional is read where no result for it is remembered. -/
def conditional :
    Plan input true true
      (Grammar.remembering input .conditional (Grammar.conditional input expression)) :=
  .remembering .conditional .conditional fun _ =>
    .bind (.orElseAgain (operands inner true) (operands inner false)) fun _ => .expressionRule _ _

def call : Plan input true true (Grammar.call input expression) :=
  .bind .leaf fun _ => .bind (.withBudget (atoms inner)) fun _ => .expressionRule _ _

def term : Plan input false true (Grammar.term input expression) :=
  .marked .term <|
    .ifSees (fun _ => by decide) (conditional inner) <| .ifSeesCall (call inner) (atom inner)

/-- Every sign begins the method anew. -/
def signedWithin :
    (steps : Nat) → Plan input false true (Grammar.signedWithin input expression steps)
  | 0 => .unending
  | steps + 1 =>
    .marked .signed <|
      .ifSees (fun _ => by decide)
        (.bind .leaf fun _ => .nested <|
          .bind (signedWithin steps) fun _ => .expressionRule _ _)
        (term inner)

end Expressions

section Chains

variable (symbol : Symbol) {operators : List Symbol} (inside : .endOfText ∉ operators)
  {operand : Reading Node} (inner : Plan input false true operand)

def chainWithin : (steps : Nat) → (left : Node) →
    Plan input false false (Grammar.chainWithin input symbol operators operand steps left)
  | 0, _ => .unending
  | steps + 1, _ =>
    .ifSees (fun _ => inside)
      (.bind .leaf fun _ => .bind inner fun _ => .bind (.expressionRule _ _) fun joined =>
        chainWithin steps joined)
      (.pure _)

def chain (method : Method) :
    Plan input false true (Grammar.chain input symbol operators operand) :=
  .marked method <|
    .bind inner fun first => .withBudget fun steps => chainWithin symbol inside inner steps first

end Chains

def sum {expression : Reading Node} (inner : Plan input false true expression) :
    Plan input false true (Grammar.sum input expression) :=
  chain .sum (by decide) (chain .product (by decide) (.withBudget (signedWithin inner)) .product)
    .sum

def expressionWithin : (levels : Nat) → Plan input false true (Grammar.expressionWithin input levels)
  | 0 => .unending
  | levels + 1 => .marked .expression (.nested (sum (expressionWithin levels)))

def wholeExpression : Plan input false true (Grammar.wholeExpression input) :=
  .withBudget expressionWithin

def namesWithin : (steps : Nat) → Plan input false false (Grammar.namesWithin input steps)
  | 0 => .unending
  | steps + 1 =>
    .ifSees (fun _ => by decide)
      (.bind .leaf fun _ => .bind (namesWithin steps) fun _ => .pure _) (.pure _)

def functionDef : Plan input true true (Grammar.functionDef input) :=
  .marked .functionDef <|
    .bind .leaf fun _ => .bind (expect .identifier (by decide)) fun _ =>
    .bind (.withBudget namesWithin) fun _ => .bind (expect .equals (by decide)) fun _ =>
    .bind wholeExpression fun _ => .pure _

def variableDecl : Plan input true true (Grammar.variableDecl input) :=
  .marked .variableDecl <|
    .bind .leaf fun _ => .bind (expect .identifier (by decide)) fun _ =>
    .bind (expect .equals (by decide)) fun _ => .bind wholeExpression fun _ => .pure _

def outputStmt : Plan input true true (Grammar.outputStmt input) :=
  .marked .outputStmt <| .bind .leaf fun _ => .bind wholeExpression fun _ => .pure _

def enclosed (inner : Reading Node) : Reading Node := do
  let node ← inner
  return .rule .statement [node]

/-- The looks at the first token may as well follow each other only while they fail. -/
theorem enclosed_eq :
    (Grammar.sees input [.keyword .define] >>= fun define =>
      if define = true then enclosed (Grammar.functionDef input) else
      Grammar.sees input [.keyword .declare] >>= fun declare =>
      if declare = true then enclosed (Grammar.variableDecl input) else
      Grammar.sees input [.keyword .output] >>= fun output =>
      if output = true then enclosed (Grammar.outputStmt input)
      else Grammar.refuse input "a statement") =
    Grammar.statement input := by
  funext s
  rw [statement_apply]
  cases ahead : input.tokenAt? s.position with
  | none => simp only [ifSees_apply, ahead]
  | some token =>
      simp only [ifSees_apply, ahead, List.mem_singleton]
      unfold statementFor
      split_ifs
      · rfl
      · rfl
      · rfl
      · rw [bind_apply, refuse_apply, ahead]

def statement : Plan input false true (Grammar.statement input) :=
  .marked .statement <| .same enclosed_eq <|
    .ifSees (fun _ => by decide) (.bind functionDef fun _ => .pure _) <|
    .ifSees (fun _ => by decide) (.bind variableDecl fun _ => .pure _) <|
    .ifSees (fun _ => by decide) (.bind outputStmt fun _ => .pure _) (.refuse _)

def statementsWithin :
    (steps : Nat) → Plan input false false (Grammar.statementsWithin input steps)
  | 0 => .unending
  | steps + 1 =>
    @Plan.ifSees _ false _ _ _ _ _ _ (by simp) (.pure _)
      (.bind statement fun _ => .bind (statementsWithin steps) fun _ => .pure _)

def statements : Plan input false false (Reading.withBudget input (Grammar.statementsWithin input)) :=
  .withBudget statementsWithin

end Plan

/-- What happens while a program is read: its statements, and the token behind them that ends the
text. -/
def programEvents (input : Input) (s : State) : List Event :=
  let plan : Plan input false false _ := .statements
  plan.events s ++ Plan.onward (fun _ after => [.taken after.position]) (plan.run s)

/-! ## Properties of all readings -/

/-- A property of the readings of single tokens that every way of putting readings together
keeps. -/
structure Closed (input : Input) (holds : (α : Type) → Reading α → Prop) : Prop where
  pure {α : Type} (value : α) : holds α (Pure.pure value)
  unending {α : Type} : holds α (fail (.misuse .unending))
  bind {α β : Type} {first : Reading α} {next : α → Reading β} :
    holds α first → (∀ value, holds β (next value)) → holds β (first >>= next)
  withBudget {α : Type} {repetition : Nat → Reading α} :
    (∀ steps, holds α (repetition steps)) → holds α (Reading.withBudget input repetition)
  withCalls {α : Type} {reading : Reading α} (calls : Bool) :
    holds α reading → holds α (Reading.withCalls calls reading)
  orElseAgain {α : Type} {first second : Reading α} :
    holds α first → holds α second → holds α (Reading.orElseAgain first second)
  leaf : holds Node (Grammar.leaf input)
  sees (symbols : List Symbol) : holds Bool (Grammar.sees input symbols)
  seesCall : holds Bool (Grammar.seesCall input)
  refuse {α : Type} (wanted : String) : holds α (Grammar.refuse input wanted)
  expressionRule (symbol : Symbol) (children : List Node) :
    holds Node (Grammar.expressionRule input symbol children)
  nested {α : Type} {reading : Reading α} :
    holds α reading → holds α (Grammar.nested input reading)
  remembering (symbol : Symbol) {body : Reading Node} :
    holds Node body →
    holds Node (Grammar.remembering input symbol (visit symbol >>= fun _ => body))

variable {input : Input} {holds : (α : Type) → Reading α → Prop}

/-- A reading that has a plan has every property that is kept when readings are put together. -/
theorem Plan.closed
    (closed : Closed input holds) {guarded moves : Bool} {α : Type} {reading : Reading α}
    (plan : Plan input guarded moves reading) : holds α reading := by
  induction plan with
  | pure value => exact closed.pure value
  | unending => exact closed.unending
  | refuse wanted => exact closed.refuse wanted
  | expressionRule symbol children => exact closed.expressionRule symbol children
  | leaf => exact closed.leaf
  | bind _ _ first next => exact closed.bind first next
  | ifSees _ _ _ first other =>
      refine closed.bind (closed.sees _) fun found => ?_
      split
      · exact first
      · exact other
  | ifSeesCall _ _ first other =>
      refine closed.bind closed.seesCall fun found => ?_
      split
      · exact first
      · exact other
  | withBudget _ repetition => exact closed.withBudget repetition
  | withCalls calls _ reading => exact closed.withCalls calls reading
  | orElseAgain _ _ first second => exact closed.orElseAgain first second
  | nested _ reading => exact closed.nested reading
  | remembering symbol _ _ next => exact closed.remembering symbol (closed.bind closed.leaf next)
  | marked _ _ reading => exact reading
  | same equal _ reading => exact equal ▸ reading

/-- The whole grammar has every property that is kept when readings are put together. -/
theorem Closed.program (closed : Closed input holds) : holds Node (Grammar.program input) :=
  closed.bind (Plan.statements.closed closed) fun _ =>
    closed.bind closed.leaf fun _ => closed.pure _

end RomanScript.Grammar
