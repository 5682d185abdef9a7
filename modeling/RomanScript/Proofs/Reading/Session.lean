import Mathlib.Logic.Relation
import RomanScript.Proofs.Reading.Memory
import RomanScript.Proofs.Reading.Phrased
import RomanScript.Proofs.Reading.Plan

/-!
# What is remembered is true to the tokens

The methods of the grammar may be called one after another from one state, each where the last one
has left it or where the position has been set in between. Whatever is remembered in the course of
this is derived from the tokens, so that it is the same to recall a node and to read it.
-/

namespace RomanScript.Grammar

open Reading

def Method.reading (input : Input) : Method → Reading Node
  | program => Grammar.program input
  | statement => Grammar.statement input
  | functionDef => Grammar.functionDef input
  | variableDecl => Grammar.variableDecl input
  | outputStmt => Grammar.outputStmt input
  | expression => wholeExpression input
  | sum => Grammar.sum input (wholeExpression input)
  | product => Grammar.product input (wholeExpression input)
  | signed => Grammar.signed input (wholeExpression input)
  | term => Grammar.term input (wholeExpression input)
  | atom => Grammar.atom input (wholeExpression input)
  | group => Grammar.group input (wholeExpression input)
  | conditional => Grammar.conditional input (wholeExpression input)

/-- What may be done with a state: everything but the memory is set, with the position where a token
is or behind the last one; a method is called, successfully or not; or the call of a method is
broken off, so that only the first of the results that it gives are remembered. -/
inductive Act (input : Input) : State → State → Prop
  | assigned {s : State} {position nesting : Int} {calls : Bool} :
      0 ≤ position → position ≤ input.tokens.size →
      Act input s { s with position := position, calls := calls, nesting := nesting }
  | called {s : State} (method : Method) : Act input s (method.reading input s).2
  | interrupted {s : State} {memory : List Remembered} (method : Method) :
      s.memory <:+ memory → memory <:+ (method.reading input s).2.memory →
      Act input s { s with memory := memory }

/-- The node is one of the rule, and made of the tokens between two positions. -/
structure Covers (tokens : List Token) (symbol : Symbol) (start : Int) (node : Node)
    (finish : Int) : Prop where
  remembered : symbol ∈ [.group, .conditional]
  nonneg : 0 ≤ start
  forward : start < finish
  inside : finish ≤ tokens.length
  branch : node = .rule symbol node.children
  leaves : node.leaves = (tokens.drop start.toNat).take (finish - start).toNat

section Acts

variable {input : Input} (terminated : input.Terminated)

include terminated

/-- Every method can be called from every state that is ready, and leaves one that is ready. -/
theorem Method.ready
    (method : Method) {s : State} (ready : Ready input (fun _ => True) s) :
    Ready input (fun _ => True) (method.reading input s).2 := by
  have starves : Starves input fun _ => True := fun _ _ _ _ _ _ _ => trivial
  have starvesBy : StarvesBy input (fun _ => True) (-1) (wholeExpression input) :=
    fun _ _ _ _ _ _ => trivial
  have expressions : Parses input (fun _ => True) (-1 + 1) .expression (fun node => [node])
    (wholeExpression input) := parses_wholeExpression terminated starves
  have behind : -1 < s.position := Int.lt_of_lt_of_le (by decide) ready.nonneg
  have enough : -1 ≤ s.position := Int.le_of_lt behind
  cases method with
  | program => exact (ends_programFrom terminated starves ready).ready
  | statement => exact (ends_statement terminated starves ready).ready
  | functionDef => exact (ends_functionDef terminated starves ready).ready
  | variableDecl => exact (ends_variableDecl terminated starves ready).ready
  | outputStmt => exact (ends_outputStmt terminated starves ready).ready
  | expression => exact (expressions s ready ready.nonneg).ready
  | sum => exact (parses_sum terminated expressions starvesBy s ready enough).ready
  | product => exact (parses_product terminated expressions starvesBy s ready enough).ready
  | signed => exact (parses_signed terminated expressions starvesBy s ready enough).ready
  | term => exact (parses_term terminated expressions starvesBy s ready enough).ready
  | atom => exact (parses_atom terminated expressions s ready enough).ready
  | group => exact (ends_group terminated expressions ready enough (.inr behind)).ready
  | conditional =>
      exact (ends_conditional terminated expressions starvesBy ready enough (.inr behind)).ready

private theorem Act.ready
    {s after : State} (act : Act input s after) (ready : Ready input (fun _ => True) s) :
    Ready input (fun _ => True) after := by
  cases act with
  | assigned nonneg inside => exact ⟨nonneg, inside, ready.faithful⟩
  | called method => exact method.ready terminated ready
  | interrupted method _ first =>
      have faithful := (method.ready terminated ready).faithful
      exact ⟨ready.nonneg, ready.inside, fun remembers entry member =>
        faithful remembers entry (first.subset member)⟩

private theorem ready_of_acts
    {s : State} (acts : Relation.ReflTransGen (Act input) State.start s) :
    Ready input (fun _ => True) s := by
  induction acts with
  | refl => exact .start
  | tail _ act ready => exact act.ready terminated ready

end Acts

/-- What is remembered is recalled in place of any body. -/
theorem remembering_of_recall
    {input : Input} (remembers : input.settings.remembers = true) {s : State} {symbol : Symbol}
    {result : Except Diagnostic (Node × Int)} (recalls : s.recall? symbol s.position = some result)
    (body : Reading Node) : remembering input symbol body s = recalled result s := by
  unfold remembering
  rw [if_pos remembers, recalls]

section Lists

variable {tokens : List Token} {path : Option String} {settings : Settings} {starved : Int → Prop}

/-- The node that is derived as a rule covers the tokens that the derivation passes. -/
theorem Reads.covers
    (terminated : (Input.mk tokens.toArray path settings).Terminated) {symbol : Symbol}
    {start finish : Int} {node : Node} (nonneg : 0 ≤ start)
    (reads : Reads ⟨tokens.toArray, path, settings⟩ starved (.rule symbol) start [node] finish) :
    Covers tokens symbol start node finish := by
  obtain ⟨before, remembered, branch⟩ : start < tokens.toArray.size ∧
      symbol ∈ [.group, .conditional] ∧ node = .rule symbol node.children := by
    cases reads with
    | group opening => exact ⟨opening.lt_size terminated (by decide), by decide, rfl⟩
    | conditional keyword => exact ⟨keyword.lt_size terminated (by decide), by decide, rfl⟩
  obtain ⟨_, inside, forward⟩ := reads.progress terminated (Int.le_of_lt before)
  have inTokens : finish ≤ tokens.length := inside
  obtain ⟨spelled, spells, phrased⟩ := reads.phrased
  have leaves : node.leaves = spelled := by
    simp only [List.mem_cons, List.not_mem_nil, or_false] at remembered
    rcases remembered with rfl | rfl <;>
      · obtain ⟨_, ⟨⟩, phrase⟩ := phrased
        exact phrase.leaves_eq
  obtain ⟨rest, whole⟩ := spells.exists_rest nonneg inTokens
  have length : (finish - start).toNat = spelled.length := by
    have := spells.finish_eq
    omega
  refine ⟨remembered, nonneg, forward trivial, inTokens, branch, ?_⟩
  rw [leaves, whole, length, List.take_left]

/-- Whatever is done with a state, all nodes that it remembers cover the tokens between the
positions they are remembered with, and what is recalled is what is remembered: a node, which passes
just these tokens, or a diagnostic, which passes none. -/
theorem memory_covers
    (finished : (tokens.getLast?.map (·.symbol)) = some .endOfText) {s : State}
    (acts : Relation.ReflTransGen (Act ⟨tokens.toArray, path, .full⟩) State.start s) :
    (∀ entry ∈ s.memory, ∀ node finish, entry.result = .ok (node, finish) →
        Covers tokens entry.symbol entry.start node finish) ∧
      (∀ symbol body node finish, s.recall? symbol s.position = some (.ok (node, finish)) →
        remembering ⟨tokens.toArray, path, .full⟩ symbol body s =
            (.ok node, { s with position := finish }) ∧
          Covers tokens symbol s.position node finish) ∧
      ∀ symbol body diagnostic, s.recall? symbol s.position = some (.error diagnostic) →
        remembering ⟨tokens.toArray, path, .full⟩ symbol body s =
          (.error (.diagnostic diagnostic), s) := by
  have terminated := Tree.terminated_of_getLast? finished path .full
  have ready := ready_of_acts terminated acts
  have covers : ∀ entry ∈ s.memory, ∀ node finish, entry.result = .ok (node, finish) →
      Covers tokens entry.symbol entry.start node finish := by
    intro entry member node finish result
    obtain ⟨nonneg, reads⟩ := ready.faithful rfl entry member node finish result
    exact reads.covers terminated nonneg
  refine ⟨covers, ?_, ?_⟩
  · intro symbol body node finish recalls
    obtain ⟨_, entry, member, rfl, isStart, result⟩ :=
      @exists_entry_of_recall s symbol true _ recalls
    exact ⟨remembering_of_recall rfl recalls body, isStart ▸ covers entry member node finish result⟩
  · intro symbol body diagnostic recalls
    exact remembering_of_recall rfl recalls body

end Lists

def groupedInput : Input :=
  ⟨Tree.repeatedGroup.toArray, none, .full⟩

/-- The group is read by itself, in a nesting that is not its own. -/
def groupFirst : State :=
  (Method.atom.reading groupedInput
    { State.start with position := 3, calls := false, nesting := 7 }).2

/-- The conditional around the group is read after it. -/
def conditionalNext : State :=
  (Method.term.reading groupedInput
    { groupFirst with position := 1, calls := true, nesting := -2 }).2

def conditionalAround : Node :=
  .rule .conditional
    [.leaf ⟨.keyword .choose, "Sinon", 1, 1⟩, .leaf ⟨.identifier, "x", 1, 2⟩,
      .rule .group [.leaf ⟨.openParen, "(", 1, 3⟩, .leaf ⟨.numeral, "I", 1, 4⟩,
        .leaf ⟨.closeParen, ")", 1, 5⟩],
      .leaf ⟨.identifier, "y", 1, 6⟩]

theorem memory_covers_conditionalNext :
    Relation.ReflTransGen (Act groupedInput) State.start { conditionalNext with position := 1 } ∧
      conditionalNext.visits = [(.conditional, 1), (.group, 3)] ∧
        ∀ body, remembering groupedInput .conditional body { conditionalNext with position := 1 } =
            (.ok conditionalAround, { conditionalNext with position := 7 }) ∧
          Covers Tree.repeatedGroup .conditional 1 conditionalAround 7 := by
  have begin : Act groupedInput State.start
      { State.start with position := 3, calls := false, nesting := 7 } :=
    .assigned (by decide) (by decide)
  have group : Act groupedInput { State.start with position := 3, calls := false, nesting := 7 }
      groupFirst := .called .atom
  have back : Act groupedInput groupFirst
      { groupFirst with position := 1, calls := true, nesting := -2 } :=
    .assigned (by decide) (by decide)
  have conditional : Act groupedInput
      { groupFirst with position := 1, calls := true, nesting := -2 } conditionalNext :=
    .called .term
  have again : Act groupedInput conditionalNext { conditionalNext with position := 1 } :=
    .assigned (by decide) (by decide)
  have acts := ((((Relation.ReflTransGen.single begin).tail group).tail back).tail
    conditional).tail again
  have recalls : { conditionalNext with position := 1 }.recall? .conditional 1 =
      some (.ok (conditionalAround, 7)) := by decide +kernel
  have visits : conditionalNext.visits = [(.conditional, 1), (.group, 3)] := by decide +kernel
  have finished : (Tree.repeatedGroup.getLast?.map (·.symbol)) = some .endOfText := rfl
  generalize conditionalNext = last at acts recalls visits ⊢
  refine ⟨acts, visits, fun body => ?_⟩
  exact (memory_covers finished acts).2.1 .conditional body conditionalAround 7 recalls

end RomanScript.Grammar
