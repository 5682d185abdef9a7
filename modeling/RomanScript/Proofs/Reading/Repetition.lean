import RomanScript.Proofs.Reading.SimulatedRules

/-!
# Reading a rule again

Without memory, the outcome of a rule depends on the state for three reasons only: the position,
whether calls are recognised, and how deeply expressions are nested already. Groups and
conditionals do not even depend on the second, and the third shows only where a level is refused,
which leaves its mark on the nesting. So whoever reads one of them again, at any depth, gets the
same result, or finds a level refused.
-/

namespace RomanScript.Grammar

open Reading

/-- Whether calls are recognised outside makes no difference to the reading. -/
class Blind {α : Type} (reading : Reading α) : Prop where
  same : ∀ (s : State) (calls : Bool),
    reading { s with calls := calls } =
      ((reading s).1, { (reading s).2 with calls := calls })

namespace Blind

variable {input : Input} {α β : Type}

instance bind
    (first : Reading α) (next : α → Reading β) [Blind first] [∀ value, Blind (next value)] :
    Blind (first >>= next) where
  same s calls := by
    have sameFirst := (inferInstance : Blind first).same s calls
    rw [bind_apply, bind_apply, sameFirst]
    rcases first s with ⟨failure | value, after⟩
    · rfl
    · exact Blind.same after calls

instance ite
    (condition : Prop) [Decidable condition] (first second : Reading α)
    [Blind first] [Blind second] :
    Blind (if condition then first else second) := by
  split <;> infer_instance

instance withCalls (calls : Bool) (reading : Reading α) :
    Blind (Reading.withCalls calls reading) where
  same _ _ := rfl

instance orElseAgain (first second : Reading α) [Blind first] [Blind second] :
    Blind (Reading.orElseAgain first second) where
  same s calls := by
    have sameFirst := (inferInstance : Blind first).same s calls
    unfold Reading.orElseAgain
    rw [sameFirst]
    rcases first s with ⟨(diagnostic | misuse) | value, after⟩
    · have again := (inferInstance : Blind second).same { after with position := s.position } calls
      dsimp only [retry] at again ⊢
      rw [again]
      rcases second { after with position := s.position } with ⟨(_ | _) | _, _⟩ <;> rfl
    · rfl
    · rfl

instance leaf : Blind (Grammar.leaf input) where
  same s calls := by
    rw [leaf_apply, leaf_apply]
    dsimp only
    cases input.tokenAt? s.position with
    | none => rfl
    | some token =>
        dsimp only [Input.advanced]
        split <;> rfl

instance sees (symbols : List Symbol) : Blind (Grammar.sees input symbols) where
  same s calls := by
    rw [sees_apply, sees_apply]
    dsimp only
    cases input.tokenAt? s.position <;> rfl

instance refuse (wanted : String) : Blind (Grammar.refuse input wanted : Reading α) where
  same s calls := by
    rw [refuse_apply, refuse_apply]
    dsimp only
    cases input.tokenAt? s.position <;> rfl

instance expect (symbol : Symbol) : Blind (Grammar.expect input symbol) := by
  unfold Grammar.expect
  infer_instance

instance expressionRule (symbol : Symbol) (children : List Node) :
    Blind (Grammar.expressionRule input symbol children) where
  same s calls := by
    rw [expressionRule_apply, expressionRule_apply]
    split <;> rfl

instance visit (symbol : Symbol) : Blind (Grammar.visit symbol) where
  same _ _ := rfl

instance group (expression : Reading Node) : Blind (Grammar.group input expression) := by
  unfold Grammar.group
  infer_instance

instance operands (expression : Reading Node) (calls : Bool) :
    Blind (Grammar.operands expression calls) := by
  unfold Grammar.operands
  infer_instance

instance conditional (expression : Reading Node) :
    Blind (Grammar.conditional input expression) := by
  unfold Grammar.conditional
  infer_instance

end Blind

/-- Two runs on one input without memory, one from the nesting `first` and the other from
`second`. A run in which a level was refused is excused: its nesting has become too great. -/
def depths (input : Input) (first second : Int) : Simulation input input where
  nodes := Eq
  diagnostics := Eq
  states depth s t :=
    s.position = t.position ∧ s.calls = t.calls ∧
      s.nesting = first + depth ∧ t.nesting = second + depth
  excused depth s t := first + depth < s.nesting ∨ second + depth < t.nesting

section Depths

variable {input : Input} {first second : Int}

private theorem depths_abreast : (depths input first second).Abreast where
  tokens := rfl
  path := rfl
  position related := related.1
  moved _ related := ⟨rfl, related.2⟩
  leaf _ := rfl
  unexpected _ _ := rfl

theorem depths_lawful : (depths input first second).Lawful where
  facing related ahead ahead' := .inl (depths_abreast.sameToken related ahead ahead')
  following related _ behind behind' :=
    .inl (depths_abreast.sameToken_behind related behind behind')
  advanced related _ _ _ _ := depths_abreast.states_advanced related
  unexpected wanted related ahead ahead' :=
    depths_abreast.diagnostics_unexpected wanted related ahead ahead'
  calls related := related.2.1
  withCalls _ related := ⟨related.1, rfl, related.2.2.1, related.2.2.2⟩
  visited _ related := related
  entered := by
    rintro depth s t ⟨position, calls, nesting, nesting'⟩ _ _
    refine ⟨position, calls, ?_, ?_⟩ <;> dsimp only [State.deeper] <;> omega
  shallower := by
    rintro depth s t ⟨position, calls, nesting, nesting'⟩
    refine ⟨position, calls, ?_, ?_⟩ <;> dsimp only [State.shallower] <;> omega
  refusedLeft := by
    rintro depth s t ⟨_, _, nesting, _⟩ _
    refine .inr fun t' _ => .inl ?_
    dsimp only [State.refused]
    omega
  refusedRight := by
    rintro depth s t ⟨_, _, _, nesting⟩ _
    refine .inr fun s' _ => .inr ?_
    dsimp only [State.refused]
    omega
  placed := depths_abreast.states_placed
  rule symbol _ _ same _ := congrArg (Node.rule symbol) (eq_of_pointwise same)
  expressionRule := by
    intro symbol children children' same _
    obtain rfl := eq_of_pointwise same
    exact .expressionRule Iff.rfl rfl rfl id
  excused_grows := by
    rintro depth s s' t t' (more | more) grown grown'
    · exact .inl (Int.lt_of_lt_of_le more grown.nesting)
    · exact .inr (Int.lt_of_lt_of_le more grown'.nesting)
  excused_calls _ _ excuse := excuse
  excused_shallower := by
    rintro depth s t (more | more)
    · refine .inl ?_
      dsimp only [State.shallower]
      omega
    · refine .inr ?_
      dsimp only [State.shallower]
      omega

theorem remembering_off
    (off : input.settings.remembers = false) (symbol : Symbol) (body : Reading Node) (s : State) :
    remembering input symbol body s = recorded symbol s (body s) := by
  unfold remembering
  rw [off]
  rfl

/-- What is recorded without being looked up makes no difference. -/
theorem depths_remembering
    (off : input.settings.remembers = false) (symbol : Symbol) {symbols : List Symbol}
    {body body' : Reading Node}
    (follows : (depths input first second).FollowsAt symbols body body' Eq) :
    (depths input first second).FollowsAt symbols (remembering input symbol body)
      (remembering input symbol body') Eq := by
  intro depth s t related ahead
  rw [remembering_off off, remembering_off off]
  have inner := follows depth s t related ahead
  generalize body s = outcome at inner ⊢
  generalize body' t = outcome' at inner ⊢
  refine inner.recorded (fun _ _ _ _ _ _ states => states) (fun _ _ _ _ _ _ states => states) ?_
  intro excuse
  rcases outcome with ⟨(_ | _) | _, _⟩ <;> rcases outcome' with ⟨(_ | _) | _, _⟩ <;> exact excuse

theorem depths_remembers
    (off : input.settings.remembers = false) : (depths input first second).Remembers where
  group _ _ follows := depths_remembering off .group follows
  conditional _ _ follows := depths_remembering off .conditional follows

end Depths

def bodyOf (input : Input) (symbol : Symbol) (levels : Nat) : Reading Node :=
  if symbol = .group then group input (expressionWithin input levels)
  else conditional input (expressionWithin input levels)

/-- Wherever the body of a rule begins at a position and ends without a refused level, it has this
result. -/
def Settled (input : Input) (symbol : Symbol) (start : Int)
    (result : Except Diagnostic (Node × Int)) : Prop :=
  ∀ levels s result', s.position = start →
    resultOf (bodyOf input symbol levels s) = some result' →
    (bodyOf input symbol levels s).2.nesting = s.nesting →
      result' = result

instance (input : Input) (symbol : Symbol) (levels : Nat) :
    Blind (bodyOf input symbol levels) := by
  unfold bodyOf
  infer_instance

instance (input : Input) (symbol : Symbol) (levels : Nat) :
    Keeps input (bodyOf input symbol levels) := by
  unfold bodyOf
  infer_instance

def openers (symbol : Symbol) : List Symbol :=
  if symbol = .group then [.openParen] else [.keyword .choose]

section Settling

variable {input : Input}

private theorem follows_bodyOf
    {sim : Simulation input input} (lawful : sim.Lawful) (remembers : sim.Remembers)
    (symbol : Symbol) (levels levels' : Nat) :
    sim.FollowsAt (openers symbol) (bodyOf input symbol levels) (bodyOf input symbol levels')
      sim.nodes := by
  have expression := sim.follows_expressionWithin lawful remembers levels levels'
  unfold openers bodyOf
  split
  · exact Simulation.follows_group expression lawful
  · exact Simulation.follows_conditional expression lawful

/-- One body that ends without a refused level settles the result. -/
theorem settled_of_clean
    (off : input.settings.remembers = false) {symbol : Symbol} {levels : Nat} {s : State}
    {result : Except Diagnostic (Node × Int)}
    (ahead : input.Ahead (openers symbol) s.position)
    (ended : resultOf (bodyOf input symbol levels s) = some result)
    (clean : (bodyOf input symbol levels s).2.nesting = s.nesting) :
    Settled input symbol s.position result := by
  intro levels' t result' position ended' clean'
  have blind := (inferInstance : Blind (bodyOf input symbol levels')).same t s.calls
  have sim : (depths input s.nesting t.nesting).Outcome 0 _ _ _ :=
    follows_bodyOf depths_lawful (depths_remembers off) symbol levels levels' 0 s
      { t with calls := s.calls }
      ⟨position.symm, rfl, (Int.add_zero _).symm, (Int.add_zero _).symm⟩ ahead
  rw [blind] at sim
  generalize bodyOf input symbol levels s = outcome at ended clean sim
  generalize bodyOf input symbol levels' t = outcome' at ended' clean' sim
  rcases outcome' with ⟨failed, after'⟩
  dsimp only at sim clean'
  cases sim with
  | leftMisuse => cases ended
  | rightMisuse => cases ended'
  | excused excuse =>
      dsimp only [depths] at excuse
      omega
  | value valued =>
      obtain ⟨rfl, position, _⟩ := valued
      cases ended
      cases ended'
      dsimp only at position
      rw [position]
  | diagnostic same _ =>
      cases same
      cases ended
      cases ended'
      rfl

end Settling

end RomanScript.Grammar
