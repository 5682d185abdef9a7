import RomanScript.Proofs.Reading.Program
import RomanScript.Proofs.Reading.SimulatedRules

/-!
# What diagnostics blame

A run beside itself. Nothing differs between the two, so the simulation only says what every node
and every diagnostic of a run is like, the remembered ones included: nodes begin at tokens, and a
diagnostic stands at a token and names what it found there.
-/

namespace RomanScript.Grammar

open Reading

/-- A diagnostic of the grammar stands at a token; if it is about a token, then about that one. -/
inductive Input.Blames (input : Input) : Diagnostic → Prop
  | unexpected {token : Token} (wanted : String) :
      token ∈ input.tokens →
      input.Blames
        ⟨.unexpectedToken wanted token.symbol token.text, token.line, token.column, input.path⟩
  | tooDeep {token : Token} (limit : Nat) :
      token ∈ input.tokens →
      input.Blames ⟨.tooDeep limit, token.line, token.column, input.path⟩

def Input.Places (input : Input) (node : Node) : Prop :=
  ∃ token ∈ input.tokens, node.line = token.line ∧ node.column = token.column

/-- Remembered nodes begin at tokens, and remembered diagnostics blame tokens. -/
def Input.Recalls (input : Input) (memory : List Remembered) : Prop :=
  ∀ entry ∈ memory,
    (∀ node finish, entry.result = .ok (node, finish) → input.Places node) ∧
      ∀ diagnostic, entry.result = .error diagnostic → input.Blames diagnostic

def reflection (input : Input) : Simulation input input where
  nodes x y := x = y ∧ input.Places x
  diagnostics x y := x = y ∧ input.Blames x
  states _ s t := s = t ∧ input.Recalls s.memory
  excused _ _ _ := False

variable {input : Input}

theorem Input.Blames.stage
    {diagnostic : Diagnostic} (blames : input.Blames diagnostic) :
    diagnostic.stage = some .grammatical := by
  cases blames <;> rfl

private theorem places_leaf {token : Token} (member : token ∈ input.tokens) :
    input.Places (.leaf token) :=
  ⟨token, member, rfl, rfl⟩

private theorem reflection_pointwise
    {nodes nodes' : List Node} (same : List.Forall₂ (reflection input).nodes nodes nodes') :
    nodes = nodes' ∧ ∀ node ∈ nodes, input.Places node := by
  induction same with
  | nil => exact ⟨rfl, nofun⟩
  | cons first _ inductionHypothesis =>
      obtain ⟨rfl, placed⟩ := first
      obtain ⟨rfl, others⟩ := inductionHypothesis
      exact ⟨rfl, List.forall_mem_cons.mpr ⟨placed, others⟩⟩

/-- A branch begins where its first child does. -/
theorem places_rule
    (symbol : Symbol) {children : List Node} (placed : ∀ child ∈ children, input.Places child)
    (nonempty : children ≠ []) : input.Places (.rule symbol children) := by
  cases children with
  | nil => exact absurd rfl nonempty
  | cons first rest => exact placed first (.head _)

private theorem blames_tooHigh
    {children : List Node} (placed : ∀ child ∈ children, input.Places child)
    (nonempty : children ≠ []) : input.Blames (input.tooHigh children) := by
  obtain ⟨token, member, line, column⟩ := placed _ (List.getLast_mem nonempty)
  unfold Input.tooHigh
  rw [List.getLast?_eq_some_getLast nonempty, Option.map_some, Option.map_some, Option.getD_some,
    Option.getD_some, line, column]
  exact .tooDeep heightLimit member

private theorem reflection_abreast : (reflection input).Abreast where
  tokens := rfl
  path := rfl
  position related := congrArg State.position related.1
  moved := by
    rintro depth s t position ⟨rfl, recalls⟩
    exact ⟨rfl, recalls⟩
  leaf member := ⟨rfl, places_leaf member⟩
  unexpected wanted member := ⟨rfl, .unexpected wanted member⟩

private theorem reflection_lawful : (reflection input).Lawful where
  facing related found again := .inl (reflection_abreast.sameToken related found again)
  following related _ found again :=
    .inl (reflection_abreast.sameToken_behind related found again)
  advanced related _ _ _ _ := reflection_abreast.states_advanced related
  unexpected wanted related found again :=
    reflection_abreast.diagnostics_unexpected wanted related found again
  calls related := by rw [related.1]
  withCalls := by
    rintro depth s t calls ⟨rfl, recalls⟩
    exact ⟨rfl, recalls⟩
  visited := by
    rintro depth s t symbol ⟨rfl, recalls⟩
    exact ⟨rfl, recalls⟩
  entered := by
    rintro depth s t ⟨rfl, recalls⟩ _ _
    exact ⟨rfl, recalls⟩
  shallower := by
    rintro depth s t ⟨rfl, recalls⟩
    exact ⟨rfl, recalls⟩
  refusedLeft := by
    rintro depth s t ⟨rfl, recalls⟩ crosses
    refine .inl ⟨crosses, ⟨s.position, s.position, rfl, recalls⟩, ?_⟩
    intro x y found again
    cases found.symm.trans again
    exact ⟨rfl, .tooDeep nestingLimit (mem_of_tokenAt? found)⟩
  refusedRight := by
    rintro depth s t ⟨rfl, _⟩ crosses
    exact .inl crosses
  placed := reflection_abreast.states_placed
  rule := by
    intro symbol children children' same nonempty
    obtain ⟨rfl, placed⟩ := reflection_pointwise same
    exact ⟨rfl, places_rule symbol placed nonempty⟩
  expressionRule := by
    intro symbol children children' same nonempty
    obtain ⟨rfl, placed⟩ := reflection_pointwise same
    refine .expressionRule Iff.rfl ⟨rfl, places_rule symbol placed nonempty⟩
      ⟨rfl, blames_tooHigh placed nonempty⟩ ?_
    rintro depth s t ⟨rfl, recalls⟩
    exact ⟨rfl, recalls⟩
  excused_grows excuse := excuse.elim
  excused_calls _ _ excuse := excuse.elim
  excused_shallower excuse := excuse.elim

private theorem reflection_remembering
    (symbol : Symbol) {symbols : List Symbol} {body body' : Reading Node}
    (follows : (reflection input).FollowsAt symbols body body' (reflection input).nodes) :
    (reflection input).FollowsAt symbols (remembering input symbol body)
      (remembering input symbol body') (reflection input).nodes := by
  rintro depth s _ ⟨rfl, recalls⟩ ahead
  unfold remembering
  split
  · rename_i result found
    obtain ⟨_, entry, member, _, _, rfl⟩ := exists_entry_of_recall found
    obtain ⟨placed, blamed⟩ := recalls entry member
    -- What is recalled was placed when it was remembered.
    cases result : entry.result with
    | error diagnostic =>
        exact .diagnostic ⟨rfl, blamed diagnostic result⟩ ⟨s.position, s.position, rfl, recalls⟩
    | ok value => exact .value ⟨⟨rfl, placed value.1 value.2 result⟩, rfl, recalls⟩
  · have inner := follows depth s s ⟨rfl, recalls⟩ ahead
    refine inner.recorded ?_ ?_ False.elim
    · rintro node _ s' _ - ⟨rfl, placed⟩ ⟨rfl, recalls'⟩
      refine ⟨rfl, List.forall_mem_cons.mpr ⟨⟨?_, ?_⟩, recalls'⟩⟩
      · rintro other finish ⟨⟩
        exact placed
      · simp
    · rintro diagnostic _ s' t' - ⟨rfl, blamed⟩ ⟨place, place', equal, recalls'⟩
      have equal' := congrArg
        (fun after : State => after.remember s symbol (.error diagnostic)) equal
      refine ⟨place, place', equal', List.forall_mem_cons.mpr ⟨⟨?_, ?_⟩, recalls'⟩⟩
      · simp
      · rintro other ⟨⟩
        exact blamed

private theorem reflection_remembers : (reflection input).Remembers where
  group _ _ follows := reflection_remembering .group follows
  conditional _ _ follows := reflection_remembering .conditional follows

/-- The diagnostic of a program stands at one of its tokens. -/
theorem blames_program
    {after : State} {diagnostic : Diagnostic}
    (failed : program input State.start = (.error (.diagnostic diagnostic), after)) :
    input.Blames diagnostic := by
  have start : (reflection input).states 0 State.start State.start :=
    ⟨rfl, fun _ member => absurd member List.not_mem_nil⟩
  have ended := Simulation.follows_programWithin reflection_lawful reflection_remembers
    (fun _ _ _ _ _ => reflection_abreast.sameToken)
    (input.budget State.start) (input.budget State.start) start
  rw [← program_apply, failed] at ended
  cases ended with
  | excused excuse => exact excuse.elim
  | diagnostic related _ => exact related.2

end RomanScript.Grammar
