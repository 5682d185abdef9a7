import Mathlib.Data.List.Forall2
import RomanScript.Proofs.Reading.Derivation
import RomanScript.Proofs.Reading.Growth

/-!
# Two runs side by side

A simulation relates the runs of one grammar on two inputs: the states in between, the nodes that
come out and the diagnostics that are given. It may excuse a pair of runs from agreeing; what
excuses them has to last, however the runs go on. The levels that both runs have entered are
counted, since a simulation may compare how much deeper each of them has become.

`Follows` says that two readings agree from related states. It is shown here for the readings of
single tokens and for the ways in which readings are put together.
-/

namespace RomanScript.Grammar

open Reading

private theorem not_atomStart_of_boundary
    {symbol : Symbol} (bounds : symbol ∈ boundary) :
    atomStart.contains symbol = false := by
  simp only [boundary, List.mem_cons, List.not_mem_nil, or_false] at bounds
  rcases bounds with rfl | rfl | rfl | rfl <;> rfl

theorem eq_of_pointwise
    {nodes nodes' : List Node} (same : List.Forall₂ Eq nodes nodes') : nodes = nodes' := by
  rwa [List.forall₂_eq_eq_eq] at same

/-- Relations between the runs on two inputs. -/
structure Simulation (left right : Input) where
  nodes : Node → Node → Prop
  diagnostics : Diagnostic → Diagnostic → Prop
  states : Int → State → State → Prop
  excused : Int → State → State → Prop

namespace Simulation

variable {left right : Input} {α β γ δ : Type}

def SameToken (sim : Simulation left right) (x y : Token) : Prop :=
  x.symbol = y.symbol ∧ sim.nodes (.leaf x) (.leaf y)

def Unplaced (sim : Simulation left right) (depth : Int) (s t : State) : Prop :=
  ∃ place place',
    sim.states depth { s with position := place } { t with position := place' }

/-- How two runs may end: with related values or diagnostics, or excused; a run that ends with a
misuse is compared with nothing. -/
inductive Outcome (sim : Simulation left right) (depth : Int) (values : α → β → State → State → Prop) :
    Except Failure α × State → Except Failure β × State → Prop
  | leftMisuse {misuse : Misuse} {s : State} {other : Except Failure β × State} :
      Outcome sim depth values (.error (.misuse misuse), s) other
  | rightMisuse {misuse : Misuse} {t : State} {other : Except Failure α × State} :
      Outcome sim depth values other (.error (.misuse misuse), t)
  | excused {first : Except Failure α × State} {second : Except Failure β × State} :
      sim.excused depth first.2 second.2 → Outcome sim depth values first second
  | value {a : α} {b : β} {s t : State} :
      values a b s t → Outcome sim depth values (.ok a, s) (.ok b, t)
  | diagnostic {x y : Diagnostic} {s t : State} :
      sim.diagnostics x y → sim.Unplaced depth s t →
      Outcome sim depth values (.error (.diagnostic x), s) (.error (.diagnostic y), t)

def Valued (sim : Simulation left right) (depth : Int) (values : α → β → Prop)
    (a : α) (b : β) (s t : State) : Prop :=
  values a b ∧ sim.states depth s t

/-- From related states the readings end with related values, again in related states. -/
def Follows (sim : Simulation left right) (first : Reading α) (second : Reading β)
    (values : α → β → Prop) : Prop :=
  ∀ depth s t, sim.states depth s t →
    sim.Outcome depth (sim.Valued depth values) (first s) (second t)

def FollowsAt (sim : Simulation left right) (symbols : List Symbol)
    (first : Reading α) (second : Reading β) (values : α → β → Prop) : Prop :=
  ∀ depth s t, sim.states depth s t → left.Ahead symbols s.position →
    sim.Outcome depth (sim.Valued depth values) (first s) (second t)

/-- What a simulation has to provide for single tokens, limits and changes of the state. -/
structure Lawful (sim : Simulation left right) : Prop where
  /-- The tokens ahead are the same, unless the left text ends and the right expression does. -/
  facing {depth : Int} {s t : State} {x y : Token} :
    sim.states depth s t →
    left.tokenAt? s.position = some x → right.tokenAt? t.position = some y →
    sim.SameToken x y ∨ (x.symbol = .endOfText ∧ y.symbol ∈ boundary)
  /-- So are the tokens behind a name. -/
  following {depth : Int} {s t : State} {x y : Token} :
    sim.states depth s t → left.Ahead [.identifier] s.position →
    left.tokenAt? (s.position + 1) = some x → right.tokenAt? (t.position + 1) = some y →
    sim.SameToken x y ∨ (x.symbol = .endOfText ∧ y.symbol ∈ boundary)
  advanced {depth : Int} {s t : State} {x y : Token} :
    sim.states depth s t →
    left.tokenAt? s.position = some x → right.tokenAt? t.position = some y →
    x.symbol = y.symbol → x.symbol ≠ .endOfText →
    sim.states depth (left.advanced s) (right.advanced t)
  unexpected {depth : Int} {s t : State} {x y : Token} (wanted : String) :
    sim.states depth s t →
    left.tokenAt? s.position = some x → right.tokenAt? t.position = some y →
    sim.diagnostics
      ⟨.unexpectedToken wanted x.symbol x.text, x.line, x.column, left.path⟩
      ⟨.unexpectedToken wanted y.symbol y.text, y.line, y.column, right.path⟩
  calls {depth : Int} {s t : State} : sim.states depth s t → s.calls = t.calls
  withCalls {depth : Int} {s t : State} (calls : Bool) :
    sim.states depth s t →
    sim.states depth { s with calls := calls } { t with calls := calls }
  visited {depth : Int} {s t : State} (symbol : Symbol) :
    sim.states depth s t →
    sim.states depth { s with visits := (symbol, s.position) :: s.visits }
      { t with visits := (symbol, t.position) :: t.visits }
  entered {depth : Int} {s t : State} :
    sim.states depth s t → ¬ left.Crosses s → ¬ right.Crosses t →
    sim.states (depth + 1) s.deeper t.deeper
  shallower {depth : Int} {s t : State} :
    sim.states (depth + 1) s t → sim.states depth s.shallower t.shallower
  /-- A level that is refused on the left is refused on the right, or excuses whatever follows. -/
  refusedLeft {depth : Int} {s t : State} :
    sim.states depth s t → left.Crosses s →
    (right.Crosses t ∧ sim.Unplaced depth s.refused t.refused ∧
        ∀ x y, left.tokenAt? s.position = some x → right.tokenAt? t.position = some y →
          sim.diagnostics (left.tooNested x) (right.tooNested y)) ∨
      ∀ t', Grows right t t' → sim.excused depth s.refused t'
  refusedRight {depth : Int} {s t : State} :
    sim.states depth s t → right.Crosses t →
    left.Crosses s ∨ ∀ s', Grows left s s' → sim.excused depth s' t.refused
  placed {depth : Int} {s t s' t' : State} :
    sim.states depth s t → sim.states depth s' t' →
    sim.states depth { s' with position := s.position } { t' with position := t.position }
  rule (symbol : Symbol) {children children' : List Node} :
    List.Forall₂ sim.nodes children children' → children ≠ [] →
    sim.nodes (.rule symbol children) (.rule symbol children')
  expressionRule (symbol : Symbol) {children children' : List Node} :
    List.Forall₂ sim.nodes children children' → children ≠ [] →
    sim.Follows (Grammar.expressionRule left symbol children)
      (Grammar.expressionRule right symbol children') sim.nodes
  excused_grows {depth : Int} {s s' t t' : State} :
    sim.excused depth s t → Grows left s s' → Grows right t t' → sim.excused depth s' t'
  excused_calls {depth : Int} {s t : State} (calls calls' : Bool) :
    sim.excused depth s t →
    sim.excused depth { s with calls := calls } { t with calls := calls' }
  excused_shallower {depth : Int} {s t : State} :
    sim.excused (depth + 1) s t → sim.excused depth s.shallower t.shallower

/-! ## Runs on the same tokens -/

/-- Both runs stand at the same position among the same tokens, and whatever a token gives is
related to itself. -/
structure Abreast (sim : Simulation left right) : Prop where
  tokens : right.tokens = left.tokens
  path : right.path = left.path
  position {depth : Int} {s t : State} : sim.states depth s t → s.position = t.position
  moved {depth : Int} {s t : State} (position : Int) :
    sim.states depth s t →
    sim.states depth { s with position := position } { t with position := position }
  leaf {token : Token} : token ∈ left.tokens → sim.nodes (.leaf token) (.leaf token)
  unexpected {token : Token} (wanted : String) :
    token ∈ left.tokens →
    sim.diagnostics
      ⟨.unexpectedToken wanted token.symbol token.text, token.line, token.column, left.path⟩
      ⟨.unexpectedToken wanted token.symbol token.text, token.line, token.column, left.path⟩

namespace Abreast

variable {sim : Simulation left right} (abreast : sim.Abreast) {depth : Int} {s t s' t' : State}
    {x y : Token}

include abreast

private theorem sameToken_of_eq
    {position position' : Int} (same : position = position')
    (ahead : left.tokenAt? position = some x) (ahead' : right.tokenAt? position' = some y) :
    sim.SameToken x y := by
  obtain rfl := eq_of_same_tokens abreast.tokens same ahead ahead'
  exact ⟨rfl, abreast.leaf (mem_of_tokenAt? ahead)⟩

theorem sameToken
    (related : sim.states depth s t) (ahead : left.tokenAt? s.position = some x)
    (ahead' : right.tokenAt? t.position = some y) : sim.SameToken x y :=
  abreast.sameToken_of_eq (abreast.position related) ahead ahead'

theorem sameToken_behind
    (related : sim.states depth s t) (behind : left.tokenAt? (s.position + 1) = some x)
    (behind' : right.tokenAt? (t.position + 1) = some y) : sim.SameToken x y :=
  abreast.sameToken_of_eq (congrArg (· + 1) (abreast.position related)) behind behind'

theorem states_advanced
    (related : sim.states depth s t) :
    sim.states depth (left.advanced s) (right.advanced t) := by
  unfold Input.advanced
  rw [abreast.tokens, ← abreast.position related]
  split
  · exact abreast.moved (s.position + 1) related
  · exact related

theorem states_placed
    (earlier : sim.states depth s t) (later : sim.states depth s' t') :
    sim.states depth { s' with position := s.position } { t' with position := t.position } := by
  rw [← abreast.position earlier]
  exact abreast.moved s.position later

theorem diagnostics_unexpected
    (wanted : String) (related : sim.states depth s t)
    (ahead : left.tokenAt? s.position = some x) (ahead' : right.tokenAt? t.position = some y) :
    sim.diagnostics
      ⟨.unexpectedToken wanted x.symbol x.text, x.line, x.column, left.path⟩
      ⟨.unexpectedToken wanted y.symbol y.text, y.line, y.column, right.path⟩ := by
  obtain rfl := eq_of_same_tokens abreast.tokens (abreast.position related) ahead ahead'
  rw [abreast.path]
  exact abreast.unexpected wanted (mem_of_tokenAt? ahead)

end Abreast

variable {sim : Simulation left right} {depth : Int}

theorem Outcome.bind
    (lawful : sim.Lawful)
    {values : α → β → State → State → Prop} {values' : γ → δ → State → State → Prop}
    {first : Reading α} {second : Reading β} {next : α → Reading γ} {next' : β → Reading δ}
    [∀ a, Keeps left (next a)] [∀ b, Keeps right (next' b)]
    {s t : State}
    (begun : sim.Outcome depth values (first s) (second t))
    (continued : ∀ a b s' t', values a b s' t' →
      sim.Outcome depth values' (next a s') (next' b t')) :
    sim.Outcome depth values' ((first >>= next) s) ((second >>= next') t) := by
  rw [bind_apply, bind_apply]
  generalize first s = early at begun ⊢
  generalize second t = early' at begun ⊢
  cases begun with
  | leftMisuse => exact .leftMisuse
  | rightMisuse => exact .rightMisuse
  | value related => exact continued _ _ _ _ related
  | diagnostic related unplaced => exact .diagnostic related unplaced
  | excused excuse =>
      refine .excused (lawful.excused_grows excuse ?_ ?_)
      · rcases early with ⟨_ | a, s'⟩
        · exact Grows.refl s'
        · exact Keeps.grows s'
      · rcases early' with ⟨_ | b, t'⟩
        · exact Grows.refl t'
        · exact Keeps.grows t'

theorem Follows.bind
    (lawful : sim.Lawful)
    {values : α → β → Prop} {values' : γ → δ → Prop}
    {first : Reading α} {second : Reading β} {next : α → Reading γ} {next' : β → Reading δ}
    [∀ a, Keeps left (next a)] [∀ b, Keeps right (next' b)]
    (begun : sim.Follows first second values)
    (continued : ∀ a b, values a b → sim.Follows (next a) (next' b) values') :
    sim.Follows (first >>= next) (second >>= next') values' := by
  intro depth s t related
  refine (begun depth s t related).bind lawful ?_
  rintro a b s' t' ⟨alike, related'⟩
  exact continued a b alike depth s' t' related'

theorem FollowsAt.bind
    (lawful : sim.Lawful)
    {symbols : List Symbol} {values : α → β → Prop} {values' : γ → δ → Prop}
    {first : Reading α} {second : Reading β} {next : α → Reading γ} {next' : β → Reading δ}
    [∀ a, Keeps left (next a)] [∀ b, Keeps right (next' b)]
    (begun : sim.FollowsAt symbols first second values)
    (continued : ∀ a b, values a b → sim.Follows (next a) (next' b) values') :
    sim.FollowsAt symbols (first >>= next) (second >>= next') values' := by
  intro depth s t related ahead
  refine (begun depth s t related ahead).bind lawful ?_
  rintro a b s' t' ⟨alike, related'⟩
  exact continued a b alike depth s' t' related'

theorem Follows.at
    {symbols : List Symbol} {values : α → β → Prop} {first : Reading α} {second : Reading β}
    (follows : sim.Follows first second values) :
    sim.FollowsAt symbols first second values :=
  fun depth s t related _ => follows depth s t related

/-- To list where a rule begins changes neither what is related nor what stands ahead. -/
theorem FollowsAt.visit
    (lawful : sim.Lawful)
    {symbols : List Symbol} {values : α → β → Prop} (symbol : Symbol)
    {next : Reading α} {next' : Reading β} (follows : sim.FollowsAt symbols next next' values) :
    sim.FollowsAt symbols (Grammar.visit symbol >>= fun _ => next)
      (Grammar.visit symbol >>= fun _ => next') values :=
  fun depth _ _ related ahead => follows depth _ _ (lawful.visited symbol related) ahead

theorem Follows.pure
    {values : α → β → Prop} {a : α} {b : β} (related : values a b) :
    sim.Follows (Pure.pure a) (Pure.pure b) values :=
  fun _ _ _ states => .value ⟨related, states⟩

theorem Follows.leftMisuse
    {misuse : Misuse} {second : Reading β} {values : α → β → Prop} :
    sim.Follows (fail (.misuse misuse)) second values :=
  fun _ _ _ _ => .leftMisuse

theorem Follows.rightMisuse
    {misuse : Misuse} {first : Reading α} {values : α → β → Prop} :
    sim.Follows first (fail (.misuse misuse)) values :=
  fun _ _ _ _ => .rightMisuse

/-- Repetitions follow one another if one step more keeps them so: one that has no step left is
compared with nothing. -/
theorem Follows.steps
    {values : α → β → Prop} {first : Nat → Reading α} {second : Nat → Reading β}
    {misuse misuse' : Misuse} (ended : first 0 = fail (.misuse misuse))
    (ended' : second 0 = fail (.misuse misuse'))
    (step : ∀ steps steps', sim.Follows (first steps) (second steps') values →
      sim.Follows (first (steps + 1)) (second (steps' + 1)) values) (steps steps' : Nat) :
    sim.Follows (first steps) (second steps') values := by
  induction steps generalizing steps' with
  | zero => exact ended ▸ .leftMisuse
  | succ steps inductionHypothesis =>
      cases steps' with
      | zero => exact ended' ▸ .rightMisuse
      | succ steps' => exact step steps steps' (inductionHypothesis steps')

/-- The budgets of the two runs need not agree. -/
theorem Follows.withBudget
    {values : α → β → Prop} {first : Nat → Reading α} {second : Nat → Reading β}
    (follows : ∀ steps steps', sim.Follows (first steps) (second steps') values) :
    sim.Follows (Reading.withBudget left first) (Reading.withBudget right second) values :=
  fun depth s t related => follows _ _ depth s t related

theorem Follows.withCalls
    (lawful : sim.Lawful)
    {values : α → β → Prop} {first : Reading α} {second : Reading β} (calls : Bool)
    (follows : sim.Follows first second values) :
    sim.Follows (Reading.withCalls calls first) (Reading.withCalls calls second) values := by
  intro depth s t related
  have inner := follows depth _ _ (lawful.withCalls calls related)
  have same := lawful.calls related
  unfold Reading.withCalls Reading.afterwards
  generalize first { s with calls := calls } = early at inner ⊢
  generalize second { t with calls := calls } = early' at inner ⊢
  cases inner with
  | leftMisuse => exact .leftMisuse
  | rightMisuse => exact .rightMisuse
  | excused excuse => exact .excused (lawful.excused_calls _ _ excuse)
  | value valued =>
      rw [same]
      exact .value ⟨valued.1, lawful.withCalls t.calls valued.2⟩
  | diagnostic diagnostics unplaced =>
      obtain ⟨place, place', states⟩ := unplaced
      rw [same]
      exact .diagnostic diagnostics ⟨place, place', lawful.withCalls t.calls states⟩

theorem Follows.nested
    (lawful : sim.Lawful)
    {values : α → β → Prop} {first : Reading α} {second : Reading β}
    [Keeps left first] [Keeps right second]
    (follows : sim.Follows first second values) :
    sim.Follows (Grammar.nested left first) (Grammar.nested right second) values := by
  intro depth s t related
  by_cases crosses : left.Crosses s
  · cases ahead : left.tokenAt? s.position with
    | none =>
        rw [nested_of_crosses_none first crosses ahead]
        exact .leftMisuse
    | some x =>
        rw [nested_of_crosses first crosses ahead]
        rcases lawful.refusedLeft related crosses with ⟨crosses', unplaced, diagnostics⟩ | excuse
        · cases ahead' : right.tokenAt? t.position with
          | none =>
              rw [nested_of_crosses_none second crosses' ahead']
              exact .rightMisuse
          | some y =>
              rw [nested_of_crosses second crosses' ahead']
              exact .diagnostic (diagnostics x y ahead ahead') unplaced
        · exact .excused (excuse _ (Keeps.grows t))
  · by_cases crosses' : right.Crosses t
    · cases ahead' : right.tokenAt? t.position with
      | none =>
          rw [nested_of_crosses_none second crosses' ahead']
          exact .rightMisuse
      | some y =>
          rw [nested_of_crosses second crosses' ahead']
          rcases lawful.refusedRight related crosses' with absurd | excuse
          · exact (crosses absurd).elim
          · exact .excused (excuse _ (Keeps.grows s))
    · have inner := follows (depth + 1) _ _ (lawful.entered related crosses crosses')
      rw [nested_of_not_crosses first crosses, nested_of_not_crosses second crosses']
      generalize first s.deeper = early at inner ⊢
      generalize second t.deeper = early' at inner ⊢
      cases inner with
      | leftMisuse => exact .leftMisuse
      | rightMisuse => exact .rightMisuse
      | excused excuse => exact .excused (lawful.excused_shallower excuse)
      | value valued => exact .value ⟨valued.1, lawful.shallower valued.2⟩
      | diagnostic diagnostics unplaced =>
          obtain ⟨place, place', states⟩ := unplaced
          exact .diagnostic diagnostics ⟨place, place', lawful.shallower states⟩

/-- The second attempts begin where the first ones did. -/
theorem Follows.orElseAgain
    (lawful : sim.Lawful)
    {values : α → β → Prop} {first again : Reading α} {second again' : Reading β}
    [Keeps left again] [Keeps right again']
    (follows : sim.Follows first second values)
    (followsAgain : sim.Follows again again' values) :
    sim.Follows (Reading.orElseAgain first again) (Reading.orElseAgain second again') values := by
  intro depth s t related
  have inner := follows depth s t related
  unfold Reading.orElseAgain
  generalize first s = early at inner ⊢
  generalize second t = early' at inner ⊢
  cases inner with
  | leftMisuse => exact .leftMisuse
  | rightMisuse => exact .rightMisuse
  | value valued => exact .value valued
  | excused excuse =>
      exact .excused (lawful.excused_grows excuse
        (Keeps.grows_retry again s.position early)
        (Keeps.grows_retry again' t.position early'))
  | @diagnostic x y s' t' diagnostics unplaced =>
      obtain ⟨place, place', states⟩ := unplaced
      have retried := followsAgain depth _ _ (lawful.placed related states)
      dsimp only [retry] at retried ⊢
      generalize again { s' with position := s.position } = late at retried ⊢
      generalize again' { t' with position := t.position } = late' at retried ⊢
      cases retried with
      | leftMisuse => exact .leftMisuse
      | rightMisuse => exact .rightMisuse
      | value valued => exact .value valued
      | excused excuse =>
          rcases late with ⟨(_ | _) | _, _⟩ <;> rcases late' with ⟨(_ | _) | _, _⟩ <;>
            exact .excused excuse
      | diagnostic _ unplaced => exact .diagnostic diagnostics unplaced

/-! ## Single tokens -/

section Tokens

variable {symbols : List Symbol}

theorem FollowsAt.leaf
    (lawful : sim.Lawful)
    (inside : .endOfText ∉ symbols) :
    sim.FollowsAt symbols (Grammar.leaf left) (Grammar.leaf right) sim.nodes := by
  intro depth s t related ⟨x, ahead, member⟩
  rw [leaf_apply, leaf_apply, ahead]
  cases ahead' : right.tokenAt? t.position with
  | none => exact .rightMisuse
  | some y =>
      have notEnd : x.symbol ≠ .endOfText := fun isEnd => inside (isEnd ▸ member)
      rcases lawful.facing related ahead ahead' with ⟨sameSymbol, sameLeaf⟩ | ⟨isEnd, _⟩
      · exact .value ⟨sameLeaf, lawful.advanced related ahead ahead' sameSymbol notEnd⟩
      · exact (notEnd isEnd).elim

/-- A choice by the token ahead falls out the same way in both runs. -/
theorem Follows.ifSees
    (lawful : sim.Lawful)
    (inside : ∀ symbol ∈ symbols, symbol ∉ boundary)
    {values : α → β → Prop} {first other : Reading α} {second other' : Reading β}
    (seen : sim.FollowsAt symbols first second values)
    (unseen : sim.Follows other other' values) :
    sim.Follows
      (sees left symbols >>= fun found => if found = true then first else other)
      (sees right symbols >>= fun found => if found = true then second else other') values := by
  intro depth s t related
  rw [ifSees_apply, ifSees_apply]
  cases ahead : left.tokenAt? s.position with
  | none => exact .leftMisuse
  | some x =>
      cases ahead' : right.tokenAt? t.position with
      | none => exact .rightMisuse
      | some y =>
          dsimp only
          rcases lawful.facing related ahead ahead' with ⟨sameSymbol, _⟩ | ⟨bounds, bounds'⟩
          · rw [← sameSymbol]
            by_cases member : x.symbol ∈ symbols
            · rw [if_pos member, if_pos member]
              exact seen depth s t related ⟨x, ahead, member⟩
            · rw [if_neg member, if_neg member]
              exact unseen depth s t related
          · have outside : x.symbol ∉ symbols := fun member =>
              inside _ member (bounds ▸ .head _)
            have outside' : y.symbol ∉ symbols := fun member => inside _ member bounds'
            rw [if_neg outside, if_neg outside']
            exact unseen depth s t related

/-- Whether a call begins falls out the same way, since no call begins where both expressions
end. -/
theorem Follows.ifSeesCall
    (lawful : sim.Lawful)
    {values : α → β → Prop} {first other : Reading α} {second other' : Reading β}
    (seen : sim.FollowsAt [.identifier] first second values)
    (unseen : sim.Follows other other' values) :
    sim.Follows
      (seesCall left >>= fun found => if found = true then first else other)
      (seesCall right >>= fun found => if found = true then second else other') values := by
  intro depth s t related
  rw [bind_apply, bind_apply, seesCall_apply, seesCall_apply, ← lawful.calls related]
  by_cases calls : s.calls = true
  swap
  · rw [if_neg calls, if_neg calls]
    exact unseen depth s t related
  rw [if_pos calls, if_pos calls]
  cases ahead : left.tokenAt? s.position with
  | none => exact .leftMisuse
  | some x =>
      cases ahead' : right.tokenAt? t.position with
      | none => exact .rightMisuse
      | some y =>
          have same : x.symbol = .identifier ↔ y.symbol = .identifier := by
            rcases lawful.facing related ahead ahead' with ⟨sameSymbol, _⟩ | ⟨bounds, bounds'⟩
            · rw [sameSymbol]
            · constructor <;> intro name <;> simp [name, boundary] at bounds bounds'
          by_cases name : x.symbol = .identifier
          swap
          · dsimp only
            rw [if_neg name, if_neg (name ∘ same.mpr)]
            exact unseen depth s t related
          have aheadLeft : left.Ahead [.identifier] s.position :=
            ⟨x, ahead, List.mem_singleton.mpr name⟩
          dsimp only
          rw [if_pos name, if_pos (same.mp name)]
          cases behind : left.tokenAt? (s.position + 1) with
          | none => exact .leftMisuse
          | some z =>
              cases behind' : right.tokenAt? (t.position + 1) with
              | none => exact .rightMisuse
              | some w =>
                  have alike : atomStart.contains z.symbol = atomStart.contains w.symbol := by
                    rcases lawful.following related aheadLeft behind behind' with
                      ⟨sameSymbol, _⟩ | ⟨bounds, bounds'⟩
                    · rw [sameSymbol]
                    · rw [bounds, not_atomStart_of_boundary bounds']
                      rfl
                  dsimp only
                  rw [← alike]
                  cases atomStart.contains z.symbol with
                  | false => exact unseen depth s t related
                  | true => exact seen depth s t related aheadLeft

theorem Follows.refuse
    (lawful : sim.Lawful) {values : α → β → Prop} (wanted : String) :
    sim.Follows (Grammar.refuse left wanted : Reading α) (Grammar.refuse right wanted : Reading β)
      values := by
  intro depth s t related
  rw [refuse_apply, refuse_apply]
  cases ahead : left.tokenAt? s.position with
  | none => exact .leftMisuse
  | some x =>
      cases ahead' : right.tokenAt? t.position with
      | none => exact .rightMisuse
      | some y =>
          exact .diagnostic (lawful.unexpected wanted related ahead ahead')
            ⟨s.position, t.position, related⟩

theorem Follows.expect
    (lawful : sim.Lawful) {symbol : Symbol} (inside : symbol ∉ boundary) :
    sim.Follows (Grammar.expect left symbol) (Grammar.expect right symbol) sim.nodes := by
  have insideAll : ∀ other ∈ [symbol], other ∉ boundary := by simpa using inside
  have notEnd : .endOfText ∉ [symbol] := fun isEnd => insideAll _ isEnd (.head _)
  exact .ifSees lawful insideAll (.leaf lawful notEnd) (.refuse lawful _)

end Tokens

/-- A rule of expressions is followed where both sides find it too high or neither does. -/
theorem Follows.expressionRule
    {symbol : Symbol} {children children' : List Node}
    (exceeds : left.Exceeds (.rule symbol children) ↔ right.Exceeds (.rule symbol children'))
    (node : sim.nodes (.rule symbol children) (.rule symbol children'))
    (tooHigh : sim.diagnostics (left.tooHigh children) (right.tooHigh children'))
    (counted : ∀ {depth s t}, sim.states depth s t →
      sim.states depth { s with refusals := s.refusals + 1 }
        { t with refusals := t.refusals + 1 }) :
    sim.Follows (Grammar.expressionRule left symbol children)
      (Grammar.expressionRule right symbol children') sim.nodes := by
  intro depth s t related
  rw [expressionRule_apply, expressionRule_apply]
  by_cases high : left.Exceeds (.rule symbol children)
  · rw [if_pos high, if_pos (exceeds.mp high)]
    exact .diagnostic tooHigh ⟨s.position, t.position, counted related⟩
  · rw [if_neg high, if_neg (mt exceeds.mpr high)]
    exact .value ⟨node, related⟩

/-- What the bodies of a rule give is recorded on both sides, as long as the states stay related
when the results are remembered. -/
theorem Outcome.recorded
    {symbol : Symbol} {s t : State} {first second : Except Failure Node × State}
    (ended : sim.Outcome depth (sim.Valued depth sim.nodes) first second)
    (value : ∀ node node' s' t', second = (.ok node', t') → sim.nodes node node' →
      sim.states depth s' t' →
        sim.states depth (s'.remember s symbol (.ok (node, s'.position)))
          (t'.remember t symbol (.ok (node', t'.position))))
    (diagnostic : ∀ x y s' t', second = (.error (.diagnostic y), t') → sim.diagnostics x y →
      sim.Unplaced depth s' t' →
        sim.Unplaced depth (s'.remember s symbol (.error x)) (t'.remember t symbol (.error y)))
    (excuse : sim.excused depth first.2 second.2 →
      sim.excused depth (recorded symbol s first).2 (recorded symbol t second).2) :
    sim.Outcome depth (sim.Valued depth sim.nodes) (recorded symbol s first)
      (recorded symbol t second) := by
  cases ended with
  | leftMisuse => exact .leftMisuse
  | rightMisuse => exact .rightMisuse
  | excused excused => exact .excused (excuse excused)
  | value valued => exact .value ⟨valued.1, value _ _ _ _ rfl valued.1 valued.2⟩
  | diagnostic related unplaced =>
      exact .diagnostic related (diagnostic _ _ _ _ rfl related unplaced)

end Simulation

end RomanScript.Grammar
