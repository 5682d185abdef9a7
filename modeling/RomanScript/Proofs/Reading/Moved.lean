import RomanScript.Proofs.Node.Moved
import RomanScript.Proofs.Reading.Program
import RomanScript.Proofs.Reading.SimulatedRules
import RomanScript.Proofs.Token.Words

/-!
# Readings of moved tokens

Two runs on tokens that differ in their places only. The runs take the same steps: states agree but
for what the remembered nodes and diagnostics say about places, so neither what is recalled nor a
limit can tell the two texts apart.
-/

namespace RomanScript.Grammar

open Reading

/-- The tokens of the two inputs differ at most in their places; the paths may differ as well. -/
structure Relocation (left right : Input) : Prop where
  settings : right.settings = left.settings
  lexemes : left.tokens.toList.map Token.lexeme = right.tokens.toList.map Token.lexeme

def Input.Paired (left right : Input) (x y : Token) : Prop :=
  x.Paired left.tokens.toList right.tokens.toList y

inductive MovedResult (left right : Input) :
    Except Diagnostic (Node × Int) → Except Diagnostic (Node × Int) → Prop
  | node {node node' : Node} (finish : Int) :
      node.Moved left.tokens.toList right.tokens.toList node' →
      MovedResult left right (.ok (node, finish)) (.ok (node', finish))
  | diagnostic {x y : Diagnostic} :
      x.MovedBetween left.tokens.toList right.tokens.toList left.path right.path y →
      MovedResult left right (.error x) (.error y)

structure MovedEntry (left right : Input) (entry entry' : Remembered) : Prop where
  symbol : entry.symbol = entry'.symbol
  start : entry.start = entry'.start
  result : MovedResult left right entry.result entry'.result

/-- States that agree but for the places of what is remembered. -/
structure MovedState (left right : Input) (s t : State) : Prop where
  position : s.position = t.position
  calls : s.calls = t.calls
  nesting : s.nesting = t.nesting
  memory : List.Forall₂ (MovedEntry left right) s.memory t.memory

def relocated (left right : Input) : Simulation left right where
  nodes := Node.Moved left.tokens.toList right.tokens.toList
  diagnostics :=
    Diagnostic.MovedBetween left.tokens.toList right.tokens.toList left.path right.path
  states _ := MovedState left right
  excused _ _ _ := False

variable {left right : Input}

namespace Relocation

variable (relocation : Relocation left right)

include relocation

private theorem size : left.tokens.size = right.tokens.size := by
  have sizes := congrArg List.length relocation.lexemes
  simpa using sizes

/-- Tokens that are found at the same index are paired. -/
theorem paired
    {index : Nat} {x y : Token} (found : left.tokens[index]? = some x)
    (found' : right.tokens[index]? = some y) : left.Paired right x y := by
  rw [← Array.getElem?_toList] at found found'
  have same := congrArg (fun lexemes => lexemes[index]?) relocation.lexemes
  simp only [List.getElem?_map, found, found', Option.map_some, Option.some.injEq, Token.lexeme,
    Prod.mk.injEq] at same
  exact ⟨⟨index, found, found'⟩, same.1, same.2⟩

private theorem paired_of_tokenAt?
    {position : Int} {x y : Token} (found : left.tokenAt? position = some x)
    (found' : right.tokenAt? position = some y) : left.Paired right x y := by
  unfold Input.tokenAt? at found found'
  rw [← relocation.size] at found'
  split_ifs at found found'
  · rw [Array.back?] at found found'
    rw [← relocation.size] at found'
    exact relocation.paired found found'
  · exact relocation.paired found found'
  · exact relocation.paired found found'

private theorem sameToken
    {depth : Int} {s t : State} {x y : Token} (related : (relocated left right).states depth s t)
    (found : left.tokenAt? s.position = some x) (found' : right.tokenAt? t.position = some y) :
    (relocated left right).SameToken x y := by
  rw [← related.position] at found'
  have paired := relocation.paired_of_tokenAt? found found'
  exact ⟨paired.symbol, .leaf paired⟩

private theorem crosses_iff {s t : State} (nesting : s.nesting = t.nesting) :
    left.Crosses s ↔ right.Crosses t := by
  unfold Input.Crosses
  rw [relocation.settings, nesting]

private theorem exceeds_iff {node node' : Node} (height : node.height = node'.height) :
    left.Exceeds node ↔ right.Exceeds node' := by
  unfold Input.Exceeds
  rw [relocation.settings, height]

end Relocation

/-- What is too high is refused at its last part. -/
theorem moved_tooHigh
    {children children' : List Node}
    (moved : List.Forall₂ (relocated left right).nodes children children')
    (nonempty : children ≠ []) :
    (relocated left right).diagnostics (left.tooHigh children) (right.tooHigh children') := by
  have last := Node.last_of_pointwise moved
  rw [List.getLast?_eq_some_getLast nonempty] at last
  unfold Input.tooHigh
  rw [List.getLast?_eq_some_getLast nonempty]
  generalize children'.getLast? = last' at last ⊢
  cases last with
  | some moved => exact moved.begins.diagnosticsBetween _ _ _

section Steps

variable (relocation : Relocation left right)

include relocation

private theorem relocated_lawful : (relocated left right).Lawful where
  facing related found found' := .inl (relocation.sameToken related found found')
  following := by
    intro depth s t x y related _ found found'
    rw [← related.position] at found'
    have paired := relocation.paired_of_tokenAt? found found'
    exact .inl ⟨paired.symbol, .leaf paired⟩
  advanced := by
    intro depth s t x y related _ _ _ _
    unfold Input.advanced
    rw [← relocation.size, ← related.position]
    split
    · exact ⟨rfl, related.calls, related.nesting, related.memory⟩
    · exact related
  unexpected := by
    intro depth s t x y wanted related found found'
    rw [← related.position] at found'
    have paired := relocation.paired_of_tokenAt? found found'
    rw [← paired.symbol, ← paired.text]
    exact .intro _ paired
  calls related := related.calls
  withCalls _ related := ⟨related.position, rfl, related.nesting, related.memory⟩
  visited _ related := ⟨related.position, related.calls, related.nesting, related.memory⟩
  entered related _ _ :=
    ⟨related.position, related.calls, congrArg (· + 1) related.nesting, related.memory⟩
  shallower related :=
    ⟨related.position, related.calls, congrArg (· - 1) related.nesting, related.memory⟩
  refusedLeft := by
    intro depth s t related crosses
    refine .inl ⟨(relocation.crosses_iff related.nesting).mp crosses, ?_, ?_⟩
    · exact ⟨s.position, t.position, related.position, related.calls,
        congrArg (· + 1) related.nesting, related.memory⟩
    · intro x y found found'
      rw [← related.position] at found'
      exact .intro _ (relocation.paired_of_tokenAt? found found')
  refusedRight related crosses := .inl ((relocation.crosses_iff related.nesting).mpr crosses)
  placed earlier later := ⟨earlier.position, later.calls, later.nesting, later.memory⟩
  rule symbol _ _ moved nonempty := .of_children symbol moved nonempty
  expressionRule := by
    intro symbol children children' moved nonempty
    have node : (relocated left right).nodes (.rule symbol children) (.rule symbol children') :=
      .of_children symbol moved nonempty
    exact .expressionRule (relocation.exceeds_iff node.height) node (moved_tooHigh moved nonempty)
      fun related => ⟨related.position, related.calls, related.nesting, related.memory⟩
  excused_grows excuse := excuse.elim
  excused_calls _ _ excuse := excuse.elim
  excused_shallower excuse := excuse.elim

omit relocation in
/-- The same results are found under the same keys. -/
theorem recalled_moved
    {memory memory' : List Remembered}
    (entries : List.Forall₂ (MovedEntry left right) memory memory') (symbol : Symbol)
    (start : Int) :
    Option.Rel (MovedResult left right)
      ((memory.find? fun entry => entry.symbol == symbol && entry.start == start).map (·.result))
      ((memory'.find? fun entry => entry.symbol == symbol && entry.start == start).map
        (·.result)) := by
  induction entries with
  | nil => exact .none
  | cons first _ inductionHypothesis =>
      rw [List.find?_cons, List.find?_cons, ← first.symbol, ← first.start]
      split
      · exact .some first.result
      · exact inductionHypothesis

private theorem relocated_remembering
    (symbol : Symbol) {symbols : List Symbol} {body body' : Reading Node}
    (follows : (relocated left right).FollowsAt symbols body body' (relocated left right).nodes) :
    (relocated left right).FollowsAt symbols (remembering left symbol body)
      (remembering right symbol body') (relocated left right).nodes := by
  intro depth s t related ahead
  have inner := follows depth s t related ahead
  have found : Option.Rel (MovedResult left right)
      (if left.settings.remembers then s.recall? symbol s.position else none)
      (if right.settings.remembers then t.recall? symbol t.position else none) := by
    rw [relocation.settings, ← related.position]
    split
    · exact recalled_moved related.memory symbol s.position
    · exact .none
  unfold remembering
  generalize (if left.settings.remembers then s.recall? symbol s.position else none) = result
    at found ⊢
  generalize (if right.settings.remembers then t.recall? symbol t.position else none) = result'
    at found ⊢
  cases found with
  | some same =>
      cases same with
      | node finish moved =>
          exact .value ⟨moved, rfl, related.calls, related.nesting, related.memory⟩
      | diagnostic moved => exact .diagnostic moved ⟨s.position, t.position, related⟩
  | none =>
      dsimp only
      refine inner.recorded ?_ ?_ False.elim
      · intro node node' s' t' _ moved after
        have result : MovedResult left right (.ok (node, s'.position)) (.ok (node', t'.position)) :=
          after.position ▸ .node s'.position moved
        exact ⟨after.position, after.calls, after.nesting,
          .cons ⟨rfl, related.position, result⟩ after.memory⟩
      · rintro x y s' t' - moved ⟨place, place', after⟩
        exact ⟨place, place', after.position, after.calls, after.nesting,
          .cons ⟨rfl, related.position, .diagnostic moved⟩ after.memory⟩

private theorem relocated_remembers : (relocated left right).Remembers where
  group _ _ follows := relocated_remembering relocation .group follows
  conditional _ _ follows := relocated_remembering relocation .conditional follows

end Steps

/-- The outcome of a program does not depend on where its tokens stand, nor on the path. -/
theorem moved_program
    (relocation : Relocation left right) (terminated : left.Terminated)
    (terminated' : right.Terminated) :
    Failure.MovedBetween left.tokens.toList right.tokens.toList left.path right.path
      (Node.Moved left.tokens.toList right.tokens.toList)
      (program left State.start).1 (program right State.start).1 := by
  have start : (relocated left right).states 0 State.start State.start := ⟨rfl, rfl, rfl, .nil⟩
  have ended := Simulation.follows_programWithin (relocated_lawful relocation)
    (relocated_remembers relocation) (fun _ _ _ _ _ => relocation.sameToken)
    (left.budget State.start) (right.budget State.start) start
  have proper := program_ne_misuse terminated Ready.start rfl rfl
  have proper' := program_ne_misuse terminated' Ready.start rfl rfl
  rw [← program_apply, ← program_apply] at ended
  generalize program left State.start = outcome at ended proper ⊢
  generalize program right State.start = outcome' at ended proper' ⊢
  cases ended with
  | leftMisuse => exact absurd rfl (proper _)
  | rightMisuse => exact absurd rfl (proper' _)
  | excused excuse => exact excuse.elim
  | value moved => exact .value moved
  | diagnostic moved _ => exact .diagnostic moved

end RomanScript.Grammar

namespace RomanScript.Tree

open Grammar

variable {lefts rights : List Token}

private theorem finished_of_lexemes
    (finished : (lefts.getLast?.map (·.symbol)) = some .endOfText)
    (lexemes : lefts.map Token.lexeme = rights.map Token.lexeme) :
    (rights.getLast?.map (·.symbol)) = some .endOfText := by
  have last := congrArg (fun lexemes => lexemes.getLast?.map Prod.fst) lexemes
  simp only [List.getLast?_map, Option.map_map] at last
  rw [← finished]
  exact last.symm

/-- Tokens that differ in their places only are read to trees that differ in their places only, or
are refused for the same reason at tokens of the same index, whatever the paths. -/
theorem movedBetween_ofTokens
    (finished : (lefts.getLast?.map (·.symbol)) = some .endOfText)
    (lexemes : lefts.map Token.lexeme = rights.map Token.lexeme) (path path' : Option String) :
    Failure.MovedBetween lefts rights path path'
      (fun tree tree' => tree.path = path ∧ tree'.path = path' ∧
        tree.root.Moved lefts rights tree'.root)
      (ofTokens lefts path) (ofTokens rights path') := by
  have finished' := finished_of_lexemes finished lexemes
  have relocation : Relocation ⟨lefts.toArray, path, .full⟩ ⟨rights.toArray, path', .full⟩ :=
    ⟨rfl, lexemes⟩
  have moved := moved_program relocation (terminated_of_getLast? finished path .full)
    (terminated_of_getLast? finished' path' .full)
  rw [ofTokens, ofTokens, ofTokensUnder_of_finished finished, ofTokensUnder_of_finished finished']
  generalize program ⟨lefts.toArray, path, .full⟩ State.start = outcome at moved ⊢
  generalize program ⟨rights.toArray, path', .full⟩ State.start = outcome' at moved ⊢
  obtain ⟨result, after⟩ := outcome
  obtain ⟨result', after'⟩ := outcome'
  cases moved with
  | value moved => exact .value ⟨rfl, rfl, moved⟩
  | diagnostic moved => exact .diagnostic moved

/-- The same under one path. -/
theorem moved_ofTokens
    (finished : (lefts.getLast?.map (·.symbol)) = some .endOfText)
    (lexemes : lefts.map Token.lexeme = rights.map Token.lexeme) (path : Option String) :
    Failure.Moved lefts rights path
      (fun tree tree' => tree.path = path ∧ tree'.path = path ∧
        tree.root.Moved lefts rights tree'.root)
      (ofTokens lefts path) (ofTokens rights path) :=
  (movedBetween_ofTokens finished lexemes path path).moved

end RomanScript.Tree
