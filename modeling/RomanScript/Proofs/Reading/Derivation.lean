import RomanScript.Proofs.Reading.Equations

/-!
# Derivations

The grammar as a relation between the tokens from one position to another and the nodes that they
give. A derivation looks no further ahead than the parser does and makes the same choices, but it
knows neither limits nor memory. A conditional may be derived without calls only where it starves
with them; what that means is a parameter.
-/

namespace RomanScript.Grammar

open Reading

/-- The symbols that end an expression because they begin a statement or end the text. -/
def boundary : List Symbol :=
  [.endOfText, .keyword .define, .keyword .declare, .keyword .output]

inductive Tier where
  | product
  | sum

def Tier.symbol : Tier → Symbol
  | product => .product
  | sum => .sum

def Tier.operators : Tier → List Symbol
  | product => [.times, .divide]
  | sum => [.plus, .minus]

/-- What a derivation is of. Some parts depend on whether calls are recognised. -/
inductive Part where
  | rule (symbol : Symbol)
  | atom
  | atoms
  | term (calls : Bool)
  | signed (calls : Bool)
  | chain (tier : Tier) (calls : Bool)
  | rest (tier : Tier) (calls : Bool) (left : Node)
  | names
  | statement (calls : Bool)
  | statements (calls : Bool)

def Tier.operand : Tier → Bool → Part
  | product, calls => .signed calls
  | sum, calls => .chain .product calls

def operandOf (input : Input) (expression : Reading Node) : Tier → Reading Node
  | .product => signed input expression
  | .sum => product input expression

abbrev Part.expression (calls : Bool) : Part := .chain .sum calls

def Part.Consumes : Part → Prop
  | .atoms | .rest _ _ _ | .names | .statements _ => False
  | _ => True

/-- The nodes derived from the tokens between two positions. -/
inductive Reads (input : Input) (starved : Int → Prop) : Part → Int → List Node → Int → Prop
  | leafAtom {start : Int} {token : Token} :
      input.At start [.numeral, .identifier, .keyword .input] token →
      Reads input starved .atom start [.leaf token] (start + 1)
  | groupAtom {start finish : Int} {node : Node} :
      Reads input starved (.rule .group) start [node] finish →
      Reads input starved .atom start [node] finish
  | group {start behind : Int} {opening closing : Token} {inner : Node} :
      input.At start [.openParen] opening →
      Reads input starved (.expression true) (start + 1) [inner] behind →
      input.At behind [.closeParen] closing →
      Reads input starved (.rule .group) start
        [.rule .group [.leaf opening, inner, .leaf closing]] (behind + 1)
  | noAtoms {start : Int} :
      ¬ input.Ahead atomStart start →
      Reads input starved .atoms start [] start
  | moreAtoms {start next finish : Int} {first : Node} {rest : List Node} :
      Reads input starved .atom start [first] next →
      Reads input starved .atoms next rest finish →
      Reads input starved .atoms start (first :: rest) finish
  | call {start finish : Int} {callee : Token} {arguments : List Node} :
      input.At start [.identifier] callee →
      input.Ahead atomStart (start + 1) →
      Reads input starved .atoms (start + 1) arguments finish →
      Reads input starved (.term true) start [.rule .call (.leaf callee :: arguments)] finish
  | atomTerm {calls : Bool} {start finish : Int} {node : Node} :
      Reads input starved .atom start [node] finish →
      (calls = true → input.Ahead [.identifier] start → ¬ input.Ahead atomStart (start + 1)) →
      Reads input starved (.term calls) start [node] finish
  | conditionalTerm {calls : Bool} {start finish : Int} {node : Node} :
      Reads input starved (.rule .conditional) start [node] finish →
      Reads input starved (.term calls) start [node] finish
  | conditional {calls : Bool} {start second third finish : Int} {keyword : Token}
      {condition consequence alternative : Node} :
      input.At start [.keyword .choose] keyword →
      Reads input starved (.expression calls) (start + 1) [condition] second →
      Reads input starved (.expression calls) second [consequence] third →
      Reads input starved (.expression calls) third [alternative] finish →
      (calls = false → starved (start + 1)) →
      Reads input starved (.rule .conditional) start
        [.rule .conditional [.leaf keyword, condition, consequence, alternative]] finish
  | sign {calls : Bool} {start finish : Int} {token : Token} {operand : Node} :
      input.At start [.plus, .minus] token →
      Reads input starved (.signed calls) (start + 1) [operand] finish →
      Reads input starved (.signed calls) start [.rule .signed [.leaf token, operand]] finish
  | unsigned {calls : Bool} {start finish : Int} {node : Node} :
      ¬ input.Ahead [.plus, .minus] start →
      Reads input starved (.term calls) start [node] finish →
      Reads input starved (.signed calls) start [node] finish
  | chain {tier : Tier} {calls : Bool} {start next finish : Int} {first node : Node} :
      Reads input starved (tier.operand calls) start [first] next →
      Reads input starved (.rest tier calls first) next [node] finish →
      Reads input starved (.chain tier calls) start [node] finish
  | noRest {tier : Tier} {calls : Bool} {start : Int} {left : Node} :
      ¬ input.Ahead tier.operators start →
      Reads input starved (.rest tier calls left) start [left] start
  | moreRest {tier : Tier} {calls : Bool} {start next finish : Int} {operator : Token}
      {left right node : Node} :
      input.At start tier.operators operator →
      Reads input starved (tier.operand calls) (start + 1) [right] next →
      Reads input starved (.rest tier calls (.rule tier.symbol [left, .leaf operator, right]))
        next [node] finish →
      Reads input starved (.rest tier calls left) start [node] finish
  | noNames {start : Int} :
      ¬ input.Ahead [.identifier] start →
      Reads input starved .names start [] start
  | moreNames {start finish : Int} {name : Token} {rest : List Node} :
      input.At start [.identifier] name →
      Reads input starved .names (start + 1) rest finish →
      Reads input starved .names start (.leaf name :: rest) finish
  | functionDef {calls : Bool} {start behind finish : Int} {keyword name equals : Token}
      {parameters : List Node} {body : Node} :
      input.At start [.keyword .define] keyword →
      input.At (start + 1) [.identifier] name →
      Reads input starved .names (start + 1 + 1) parameters behind →
      input.At behind [.equals] equals →
      Reads input starved (.expression calls) (behind + 1) [body] finish →
      Reads input starved (.statement calls) start
        [.rule .statement [.rule .functionDef
          (.leaf keyword :: .leaf name :: parameters ++ [.leaf equals, body])]] finish
  | variableDecl {calls : Bool} {start finish : Int} {keyword name equals : Token}
      {value : Node} :
      input.At start [.keyword .declare] keyword →
      input.At (start + 1) [.identifier] name →
      input.At (start + 1 + 1) [.equals] equals →
      Reads input starved (.expression calls) (start + 1 + 1 + 1) [value] finish →
      Reads input starved (.statement calls) start
        [.rule .statement
          [.rule .variableDecl [.leaf keyword, .leaf name, .leaf equals, value]]] finish
  | outputStmt {calls : Bool} {start finish : Int} {keyword : Token} {value : Node} :
      input.At start [.keyword .output] keyword →
      Reads input starved (.expression calls) (start + 1) [value] finish →
      Reads input starved (.statement calls) start
        [.rule .statement [.rule .outputStmt [.leaf keyword, value]]] finish
  | noStatements {calls : Bool} {start : Int} :
      input.Ahead [.endOfText] start →
      Reads input starved (.statements calls) start [] start
  | moreStatements {calls : Bool} {start next finish : Int} {first : Node} {rest : List Node} :
      ¬ input.Ahead [.endOfText] start →
      Reads input starved (.statement calls) start [first] next →
      Reads input starved (.statements calls) next rest finish →
      Reads input starved (.statements calls) start (first :: rest) finish

/-- The root of a derived program: statements up to a token that ends the text. -/
def Derives (input : Input) (starved : Int → Prop) (root : Node) : Prop :=
  ∃ statements finish token,
    Reads input starved (.statements true) 0 statements finish ∧
      input.At finish [.endOfText] token ∧
        root = .rule .program (statements ++ [.leaf token])

/-- Only one symbol stands at a position. -/
theorem Input.At.not_ahead
    {input : Input} {position : Int} {symbols others : List Symbol} {token : Token}
    (standing : input.At position symbols token)
    (disjoint : ∀ symbol ∈ symbols, symbol ∉ others) :
    ¬ input.Ahead others position :=
  not_ahead_of_tokenAt? input standing.1 (disjoint _ standing.2)

theorem Input.Ahead.mono
    {input : Input} {position : Int} {symbols others : List Symbol}
    (ahead : input.Ahead symbols position) (more : ∀ symbol ∈ symbols, symbol ∈ others) :
    input.Ahead others position := by
  obtain ⟨token, found, member⟩ := ahead
  exact ⟨token, found, more token.symbol member⟩

theorem Input.not_ahead_append
    {input : Input} {position : Int} {symbols others : List Symbol}
    (none : ¬ input.Ahead symbols position) (noOther : ¬ input.Ahead others position) :
    ¬ input.Ahead (symbols ++ others) position := by
  rintro ⟨token, found, member⟩
  rcases List.mem_append.mp member with first | second
  · exact none ⟨token, found, first⟩
  · exact noOther ⟨token, found, second⟩

theorem Reads.ahead_openParen
    {input : Input} {starved : Int → Prop} {start finish : Int} {nodes : List Node}
    (reads : Reads input starved (.rule .group) start nodes finish) :
    input.Ahead [.openParen] start := by
  cases reads with
  | group opening => exact ⟨_, opening⟩

theorem Reads.ahead_choose
    {input : Input} {starved : Int → Prop} {start finish : Int} {nodes : List Node}
    (reads : Reads input starved (.rule .conditional) start nodes finish) :
    input.Ahead [.keyword .choose] start := by
  cases reads with
  | conditional keyword => exact ⟨_, keyword⟩

theorem Reads.ahead_atomStart
    {input : Input} {starved : Int → Prop} {start finish : Int} {nodes : List Node}
    (reads : Reads input starved .atom start nodes finish) :
    input.Ahead atomStart start := by
  cases reads with
  | leafAtom standing => exact .mono ⟨_, standing⟩ (by decide)
  | groupAtom group => exact group.ahead_openParen.mono (by decide)

theorem Reads.ahead_endOfText
    {input : Input} {starved : Int → Prop} {calls : Bool} {start finish : Int} {nodes : List Node}
    (reads : Reads input starved (.statements calls) start nodes finish) :
    input.Ahead [.endOfText] finish := by
  generalize isStatements : Part.statements calls = part at reads
  induction reads with
  | noStatements ahead => exact ahead
  | moreStatements _ _ _ _ rest => exact rest isStatements
  | _ => cases isStatements

theorem Reads.ahead_boundary
    {input : Input} {starved : Int → Prop} {calls : Bool} {start finish : Int} {nodes : List Node}
    (reads : Reads input starved (.statements calls) start nodes finish) :
    input.Ahead boundary start := by
  cases reads with
  | noStatements ahead =>
      obtain ⟨token, found, member⟩ := ahead
      exact ⟨token, found, List.mem_singleton.mp member ▸ .head _⟩
  | moreStatements _ first _ =>
      cases first with
      | functionDef keyword | variableDecl keyword | outputStmt keyword =>
          obtain ⟨found, member⟩ := keyword
          rw [List.mem_singleton] at member
          exact ⟨_, found, by rw [member]; decide⟩

/-! ## Positions -/

def Input.Terminated (input : Input) : Prop :=
  ∃ token, input.tokens.back? = some token ∧ token.symbol = .endOfText

variable {input : Input} {starved : Int → Prop}

theorem Input.Terminated.exists_token
    (terminated : input.Terminated) {position : Int} (nonneg : 0 ≤ position) :
    ∃ token, input.tokenAt? position = some token := by
  obtain ⟨finish, last, _⟩ := terminated
  unfold Input.tokenAt?
  split_ifs with beyond
  · exact ⟨finish, last⟩
  · have inside : position.toNat < input.tokens.size := by omega
    exact ⟨_, Array.getElem?_eq_getElem inside⟩

theorem Input.Terminated.size_pos
    (terminated : input.Terminated) : 0 < input.tokens.size := by
  obtain ⟨finish, last, _⟩ := terminated
  exact Array.size_pos_of_mem (Array.mem_of_back? last)

/-- Only the end of the text stands behind the last token. -/
theorem Input.At.lt_size
    {position : Int} {symbols : List Symbol} {token : Token}
    (standing : input.At position symbols token)
    (terminated : input.Terminated) (inside : .endOfText ∉ symbols) :
    position < input.tokens.size := by
  obtain ⟨finish, last, isEnd⟩ := terminated
  obtain ⟨found, member⟩ := standing
  by_cases beyond : input.tokens.size ≤ position
  · rw [Input.tokenAt?, if_pos beyond, last] at found
    have same : finish = token := by simpa using found
    rw [← same, isEnd] at member
    exact (inside member).elim
  · omega

theorem Input.At.succ_lt_size
    {position : Int} {symbols : List Symbol} {token : Token}
    (standing : input.At position symbols token) (nonneg : 0 ≤ position)
    (terminated : input.Terminated) (inside : .endOfText ∉ symbols) :
    position + 1 < input.tokens.size := by
  have bound := standing.lt_size terminated inside
  obtain ⟨finish, last, isEnd⟩ := terminated
  obtain ⟨found, member⟩ := standing
  by_cases isLast : position + 1 = input.tokens.size
  · have index : position.toNat = input.tokens.size - 1 := by omega
    rw [Input.tokenAt?, if_neg (by omega), if_pos nonneg, index] at found
    rw [Array.back?, found] at last
    have same : token = finish := by simpa using last
    rw [same, isEnd] at member
    exact (inside member).elim
  · omega

/-- A token that does not end the text is taken and passed. -/
theorem leaf_of_at
    {state : State} {symbols : List Symbol} {token : Token}
    (standing : input.At state.position symbols token)
    (terminated : input.Terminated) (inside : .endOfText ∉ symbols) :
    leaf input state = (.ok (.leaf token), { state with position := state.position + 1 }) := by
  rw [leaf_apply, standing.1]
  dsimp only [Input.advanced]
  rw [if_pos (standing.lt_size terminated inside)]

section Choices

variable {α : Type} {symbols : List Symbol} {token : Token} {first other : Reading α} {s : State}

theorem ifSees_of_at (standing : input.At s.position symbols token) :
    (sees input symbols >>= fun found => if found = true then first else other) s = first s := by
  rw [ifSees_apply, standing.1]
  exact if_pos standing.2

theorem ifSees_of_not_ahead
    (terminated : input.Terminated) (nonneg : 0 ≤ s.position)
    (none : ¬ input.Ahead symbols s.position) :
    (sees input symbols >>= fun found => if found = true then first else other) s = other s := by
  obtain ⟨token, ahead⟩ := terminated.exists_token nonneg
  rw [ifSees_apply, ahead]
  exact if_neg fun member => none ⟨token, ahead, member⟩

theorem ifSeesCall_of_at
    (calls : s.calls = true) (standing : input.At s.position [.identifier] token)
    (argument : input.Ahead atomStart (s.position + 1)) :
    (seesCall input >>= fun found => if found = true then first else other) s = first s := by
  obtain ⟨next, behind, member⟩ := argument
  rw [bind_apply, seesCall_apply, if_pos calls, standing.1]
  dsimp only
  rw [if_pos (List.mem_singleton.mp standing.2), behind]
  dsimp only
  rw [if_pos (by simpa using member)]

/-- A name that no argument follows does not begin a call. -/
theorem ifSeesCall_of_alone
    (terminated : input.Terminated) (nonneg : 0 ≤ s.position)
    (alone : s.calls = true → input.Ahead [.identifier] s.position →
      ¬ input.Ahead atomStart (s.position + 1)) :
    (seesCall input >>= fun found => if found = true then first else other) s = other s := by
  obtain ⟨token, ahead⟩ := terminated.exists_token nonneg
  obtain ⟨next, behind⟩ := terminated.exists_token (Int.le_add_one nonneg)
  rw [bind_apply, seesCall_apply, ahead, behind]
  dsimp only
  by_cases calls : s.calls = true
  · by_cases name : token.symbol = .identifier
    · have noArgument := alone calls ⟨token, ahead, List.mem_singleton.mpr name⟩
      rw [if_pos calls, if_pos name]
      dsimp only
      rw [if_neg (fun found => noArgument ⟨next, behind, by simpa using found⟩)]
    · rw [if_pos calls, if_neg name]
      simp
  · rw [if_neg calls]
    simp

end Choices

/-- A derivation moves on, and never past the last token. -/
theorem Reads.progress
    (terminated : input.Terminated) {part : Part} {start finish : Int} {nodes : List Node}
    (reads : Reads input starved part start nodes finish) (inside : start ≤ input.tokens.size) :
    start ≤ finish ∧ finish ≤ input.tokens.size ∧ (part.Consumes → start < finish) := by
  induction reads with
  | leafAtom standing =>
      have bound := standing.lt_size terminated (by decide)
      exact ⟨by omega, by omega, fun _ => by omega⟩
  | groupAtom _ inductionHypothesis =>
      have inner := inductionHypothesis inside
      exact ⟨inner.1, inner.2.1, fun _ => inner.2.2 trivial⟩
  | group opening _ closing inductionHypothesis =>
      have openingBound := opening.lt_size terminated (by decide)
      have closingBound := closing.lt_size terminated (by decide)
      have inner := inductionHypothesis (by omega)
      exact ⟨by omega, by omega, fun _ => by omega⟩
  | noAtoms _ => exact ⟨Int.le_refl _, inside, False.elim⟩
  | moreAtoms _ _ first rest =>
      have firstMoves := first inside
      have restMoves := rest firstMoves.2.1
      exact ⟨by omega, by omega, False.elim⟩
  | call callee _ _ inductionHypothesis =>
      have calleeBound := callee.lt_size terminated (by decide)
      have inner := inductionHypothesis (by omega)
      exact ⟨by omega, by omega, fun _ => by omega⟩
  | atomTerm _ _ inductionHypothesis =>
      have inner := inductionHypothesis inside
      exact ⟨inner.1, inner.2.1, fun _ => inner.2.2 trivial⟩
  | conditionalTerm _ inductionHypothesis =>
      have inner := inductionHypothesis inside
      exact ⟨inner.1, inner.2.1, fun _ => inner.2.2 trivial⟩
  | conditional keyword _ _ _ _ condition consequence alternative =>
      have keywordBound := keyword.lt_size terminated (by decide)
      have conditionMoves := condition (by omega)
      have consequenceMoves := consequence (by omega)
      have alternativeMoves := alternative (by omega)
      exact ⟨by omega, by omega, fun _ => by omega⟩
  | sign token _ inductionHypothesis =>
      have tokenBound := token.lt_size terminated (by decide)
      have inner := inductionHypothesis (by omega)
      exact ⟨by omega, by omega, fun _ => by omega⟩
  | unsigned _ _ inductionHypothesis =>
      have inner := inductionHypothesis inside
      exact ⟨inner.1, inner.2.1, fun _ => inner.2.2 trivial⟩
  | @chain tier calls _ _ _ _ _ _ _ first rest =>
      have firstMoves := first inside
      have restMoves := rest firstMoves.2.1
      have consumes : (tier.operand calls).Consumes := by cases tier <;> trivial
      have moves := firstMoves.2.2 consumes
      exact ⟨by omega, by omega, fun _ => by omega⟩
  | noRest _ => exact ⟨Int.le_refl _, inside, False.elim⟩
  | @moreRest tier _ _ _ _ _ _ _ _ operator _ _ right rest =>
      have operatorBound := operator.lt_size terminated (by cases tier <;> decide)
      have rightMoves := right (by omega)
      have restMoves := rest (by omega)
      exact ⟨by omega, by omega, False.elim⟩
  | noNames _ => exact ⟨Int.le_refl _, inside, False.elim⟩
  | moreNames name _ inductionHypothesis =>
      have nameBound := name.lt_size terminated (by decide)
      have inner := inductionHypothesis (by omega)
      exact ⟨by omega, by omega, False.elim⟩
  | functionDef keyword name _ equals _ parameters body =>
      have nameBound := name.lt_size terminated (by decide)
      have parametersMoves := parameters (by omega)
      have equalsBound := equals.lt_size terminated (by decide)
      have bodyMoves := body (by omega)
      exact ⟨by omega, by omega, fun _ => by omega⟩
  | variableDecl _ _ equals _ inductionHypothesis =>
      have equalsBound := equals.lt_size terminated (by decide)
      have inner := inductionHypothesis (by omega)
      exact ⟨by omega, by omega, fun _ => by omega⟩
  | outputStmt keyword _ inductionHypothesis =>
      have keywordBound := keyword.lt_size terminated (by decide)
      have inner := inductionHypothesis (by omega)
      exact ⟨by omega, by omega, fun _ => by omega⟩
  | noStatements _ => exact ⟨Int.le_refl _, inside, False.elim⟩
  | moreStatements _ _ _ first rest =>
      have firstMoves := first inside
      have restMoves := rest firstMoves.2.1
      exact ⟨by omega, by omega, False.elim⟩

end RomanScript.Grammar
