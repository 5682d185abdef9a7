import RomanScript.Proofs.Node.Path
import RomanScript.Proofs.Reading.CallFree
import RomanScript.Proofs.Reading.Phrased

/-!
# How far calls and conditionals reach

Calls take every atom that follows, and conditionals every operator behind their last operand. A
name that stands for a value by itself is followed by an atom only where calls are not recognised,
and that is so only among the operands of a conditional none of which shows a call.
-/

namespace RomanScript.Grammar

open Node

/-- Whether calls are recognised among the children of a branch: always in a group, either way in a
conditional, and otherwise as around the branch. -/
def Recognises (calls : Bool) : Symbol → Bool → Prop
  | .group, inner => inner = true
  | .conditional, _ => True
  | _, inner => inner = calls

private theorem Recognises.cases
    {calls inner : Bool} {symbol : Symbol} (recognises : Recognises calls symbol inner) :
    symbol = .group ∧ inner = true ∨ symbol = .conditional ∨
      symbol ∉ enclosures ∧ inner = calls := by
  unfold Recognises at recognises
  split at recognises
  · exact .inl ⟨rfl, recognises⟩
  · exact .inr (.inl rfl)
  · rename_i notGroup notConditional
    exact .inr (.inr ⟨by simpa [enclosures] using ⟨notGroup, notConditional⟩, recognises⟩)

/-- Where a branch may end: a conditional where no operator follows, and a call where no atom
follows. Calls are only made where they are recognised. -/
def Input.Closes (input : Input) (calls : Bool) (finish : Int) : Symbol → Prop
  | .conditional => ¬ input.Ahead binary finish
  | .call => calls = true ∧ ¬ input.Ahead atomStart finish
  | _ => True

def Input.Separate (input : Input) (node : Node) (finish : Int) : Prop :=
  ∀ token, node = .leaf token → token.symbol = .identifier → ¬ input.Ahead atomStart finish

/-- A property of the nodes of a list, of the positions at which their leaves begin if those of the
list begin at `start`, and of the nodes behind them. -/
def Each (holds : Int → Node → List Node → Prop) : Int → List Node → Prop
  | _, [] => True
  | start, node :: rest => holds start node rest ∧ Each holds (start + node.leaves.length) rest

/-- From a position on a node stands as the grammar reads it there, calls being recognised around it
or not. -/
inductive Heeds (input : Input) : Bool → Int → Node → Prop
  | leaf {calls : Bool} {start : Int} {token : Token} : Heeds input calls start (.leaf token)
  | rule {calls inner : Bool} {start : Int} {symbol : Symbol} {children : List Node} :
      Recognises calls symbol inner →
      input.Closes calls (start + (children.flatMap leaves).length) symbol →
      (∀ before child behind, children = before ++ child :: behind →
        Heeds input inner (start + (before.flatMap leaves).length) child) →
      (∀ before child behind, children = before ++ child :: behind →
        StandsAlone symbol behind → inner = true →
          input.Separate child (start + (before.flatMap leaves).length + child.leaves.length)) →
      Heeds input calls start (.rule symbol children)

section Each

variable {holds more : Int → Node → List Node → Prop} {start : Int} {children others : List Node}

private theorem Each.split
    (each : Each holds start children) {before behind : List Node} {child : Node}
    (children_eq : children = before ++ child :: behind) :
    holds (start + (before.flatMap leaves).length) child behind := by
  subst children_eq
  induction before generalizing start with
  | nil => simpa using each.1
  | cons first before inductionHypothesis =>
      have rest := inductionHypothesis each.2
      rwa [Int.add_assoc, ← Int.natCast_add, ← List.length_append, ← List.flatMap_cons] at rest

private theorem Each.imp
    (each : Each holds start children)
    (imp : ∀ position node behind, holds position node behind → more position node behind) :
    Each more start children := by
  induction children generalizing start with
  | nil => trivial
  | cons node rest inductionHypothesis =>
      exact ⟨imp _ _ _ each.1, inductionHypothesis each.2⟩

private theorem Each.append
    {holds : Int → Node → Prop} (each : Each (fun position node _ => holds position node) start
      children)
    (rest : Each (fun position node _ => holds position node)
      (start + (children.flatMap leaves).length) others) :
    Each (fun position node _ => holds position node) start (children ++ others) := by
  induction children generalizing start with
  | nil => simpa using rest
  | cons node children inductionHypothesis =>
      refine ⟨each.1, inductionHypothesis each.2 ?_⟩
      rwa [Int.add_assoc, ← Int.natCast_add, ← List.length_append, ← List.flatMap_cons]

end Each

variable {input : Input} {starved : Int → Prop} {calls inner : Bool} {start finish : Int}

/-- What is asked of a child of a branch: to be read there, and to be separate from what follows if
it stands alone and calls are recognised. -/
def Input.Child (input : Input) (symbol : Symbol) (inner : Bool) (position : Int) (child : Node)
    (behind : List Node) : Prop :=
  Heeds input inner position child ∧
    (StandsAlone symbol behind → inner = true →
      input.Separate child (position + child.leaves.length))

private theorem Heeds.of_each
    {symbol : Symbol} {children : List Node} (recognises : Recognises calls symbol inner)
    (closes : input.Closes calls (start + (children.flatMap leaves).length) symbol)
    (each : Each (input.Child symbol inner) start children) :
    Heeds input calls start (.rule symbol children) :=
  .rule recognises closes (fun _ _ _ split => (each.split split).1)
    fun _ _ _ split => (each.split split).2

/-- Where calls are not recognised, no call shows. -/
theorem Heeds.no_call
    {node shown : Node} (shows : node.Shows shown) (heeds : Heeds input false start node) :
    ¬ shown.IsBranch [.call] := by
  induction shows generalizing start with
  | self =>
      cases heeds with
      | leaf => exact id
      | rule _ closes _ _ =>
          intro isCall
          cases List.mem_singleton.mp isCall
          exact absurd closes.1 Bool.false_ne_true
  | @child node child shown unenclosed member _ inductionHypothesis =>
      cases heeds with
      | leaf => cases member
      | @rule _ inner _ symbol children recognises _ heeds _ =>
          obtain ⟨before, behind, split⟩ := List.append_of_mem member
          rcases recognises.cases with ⟨rfl, _⟩ | rfl | ⟨_, rfl⟩
          · exact absurd List.mem_cons_self unenclosed
          · exact absurd (List.mem_cons_of_mem _ List.mem_cons_self) unenclosed
          · exact inductionHypothesis (heeds before child behind split)

/-- A node that is read from one position to another as the grammar reads it there. -/
structure Munches (input : Input) (calls : Bool) (start : Int) (node : Node) (finish : Int) :
    Prop where
  heeds : Heeds input calls start node
  spans : finish = start + node.leaves.length
  separate : calls = true → input.Separate node finish

/-- Neither an operator of a tier nor one that binds more tightly follows. -/
def Input.Ended (input : Input) (tier : Tier) (finish : Int) : Prop :=
  ¬ input.Ahead tier.operators finish ∧ ¬ input.Ahead tier.tighter finish

/-- What derivations of a part give. A rest is given for whatever stands before it. -/
def Part.Heeded (input : Input) : Part → Int → List Node → Int → Prop
  | .rule _, start, nodes, finish =>
      ∃ node, nodes = [node] ∧ ∀ calls, Munches input calls start node finish
  | .atom, start, nodes, finish =>
      ∃ node, nodes = [node] ∧ finish = start + node.leaves.length ∧
        ∀ calls, Heeds input calls start node
  | .atoms, start, nodes, finish =>
      finish = start + (nodes.flatMap leaves).length ∧ ¬ input.Ahead atomStart finish ∧
        ∀ calls, Each (fun position node _ => Heeds input calls position node) start nodes
  | .term calls, start, nodes, finish | .signed calls, start, nodes, finish =>
      ∃ node, nodes = [node] ∧ Munches input calls start node finish
  | .chain tier calls, start, nodes, finish =>
      ∃ node, nodes = [node] ∧ Munches input calls start node finish ∧ input.Ended tier finish
  | .rest tier calls left, middle, nodes, finish =>
      ∀ start, Munches input calls start left middle → ¬ input.Ahead tier.tighter middle →
        ∃ node, nodes = [node] ∧ Munches input calls start node finish ∧ input.Ended tier finish
  | .names, start, nodes, finish =>
      ∃ names : List Token, nodes = names.map .leaf ∧ finish = start + names.length
  | .statement calls, start, nodes, finish =>
      ∃ node, nodes = [node] ∧ finish = start + node.leaves.length ∧ Heeds input calls start node
  | .statements calls, start, nodes, finish =>
      finish = start + (nodes.flatMap leaves).length ∧
        Each (fun position node _ => Heeds input calls position node) start nodes

section Children

variable {symbol : Symbol} {symbols : List Symbol} {token : Token} {position : Int}
    {behind : List Node} {node : Node}

private theorem separate_leaf
    (notName : token.symbol ≠ .identifier) : input.Separate (.leaf token) position := by
  rintro _ ⟨⟩ isName
  exact absurd isName notName

private theorem separate_rule
    (symbol : Symbol) (children : List Node) : input.Separate (.rule symbol children) position :=
  nofun

/-- A leaf that is no name may stand anywhere. -/
theorem child_of_at
    (standing : input.At start symbols token) (noName : .identifier ∉ symbols) :
    input.Child symbol inner position (.leaf token) behind :=
  ⟨.leaf, fun _ _ => separate_leaf fun isName => noName (isName ▸ standing.2)⟩

/-- A name that does not stand alone may be followed by anything. -/
theorem child_of_declared
    (declared : ¬ StandsAlone symbol behind) :
    input.Child symbol inner position (.leaf token) behind :=
  ⟨.leaf, fun standsAlone => absurd standsAlone declared⟩

private theorem Munches.child
    (munches : Munches input inner start node finish) :
    input.Child symbol inner start node behind :=
  ⟨munches.heeds, fun _ recognised => munches.spans ▸ munches.separate recognised⟩

private theorem Munches.of_each
    {children : List Node} (recognises : Recognises calls symbol inner)
    (closes : input.Closes calls finish symbol)
    (each : Each (input.Child symbol inner) start children)
    (spans : finish = start + (children.flatMap leaves).length) :
    Munches input calls start (.rule symbol children) finish where
  heeds := .of_each recognises (spans ▸ closes) each
  spans := by rw [leaves_rule, spans]
  separate := fun _ => separate_rule _ _

/-- Names before something else are no names that stand alone. -/
theorem each_names_append
    {holds : Int → Node → List Node → Prop} {rest : List Node} (nonempty : rest ≠ [])
    (declared : ∀ position token behind, behind ≠ [] → holds position (.leaf token) behind)
    (names : List Token) (each : Each holds (start + names.length) rest) :
    Each holds start (names.map .leaf ++ rest) := by
  induction names generalizing start with
  | nil => simpa using each
  | cons name names inductionHypothesis =>
      refine ⟨declared _ _ _ (by simp [nonempty]), inductionHypothesis ?_⟩
      simpa [Int.add_assoc, Int.add_comm 1] using each

end Children

private theorem Input.Ended.not_ahead_binary
    (ended : input.Ended .sum finish) : ¬ input.Ahead binary finish :=
  Input.not_ahead_append ended.1 ended.2

/-- Behind an operand of a tier stands no operator that binds more tightly. -/
theorem heeded_operand
    {tier : Tier} {nodes : List Node}
    (heeded : (tier.operand calls).Heeded input start nodes finish) :
    ∃ node, nodes = [node] ∧ Munches input calls start node finish ∧
      ¬ input.Ahead tier.tighter finish := by
  cases tier with
  | product =>
      obtain ⟨node, isNode, munches⟩ := heeded
      exact ⟨node, isNode, munches, fun ⟨_, _, member⟩ => absurd member List.not_mem_nil⟩
  | sum =>
      obtain ⟨node, isNode, munches, ended⟩ := heeded
      exact ⟨node, isNode, munches, ended.1⟩

private theorem munches_joined
    {tier : Tier} {middle : Int} {operator : Token} {left right : Node}
    (munchesLeft : Munches input calls start left middle)
    (standing : input.At middle tier.operators operator)
    (munchesRight : Munches input calls (middle + 1) right finish) :
    Munches input calls start (.rule tier.symbol [left, .leaf operator, right]) finish := by
  have recognises : Recognises calls tier.symbol calls := by cases tier <;> rfl
  have closes : input.Closes calls finish tier.symbol := by cases tier <;> trivial
  have noName : Symbol.identifier ∉ tier.operators := by cases tier <;> decide
  have middle_eq := munchesLeft.spans
  have finish_eq := munchesRight.spans
  subst middle_eq
  refine .of_each recognises closes ⟨munchesLeft.child, child_of_at standing noName, ?_, trivial⟩ ?_
  · simpa using munchesRight.child
  · simp
    omega

private theorem munches_group
    {opening closing : Token} {node : Node} {behind : Int}
    (standing : input.At start [.openParen] opening)
    (munches : Munches input true (start + 1) node behind)
    (standingClosing : input.At behind [.closeParen] closing) :
    Munches input calls start (.rule .group [.leaf opening, node, .leaf closing])
      (behind + 1) := by
  have recognises : Recognises calls .group true := rfl
  have behind_eq := munches.spans
  refine .of_each recognises trivial ⟨child_of_at standing (by decide), ?_,
    child_of_at standingClosing (by decide), trivial⟩ ?_
  · simpa using munches.child
  · simp
    omega

private theorem munches_call
    {callee : Token} {arguments : List Node} (ends : ¬ input.Ahead atomStart finish)
    (finish_eq : finish = start + 1 + (arguments.flatMap leaves).length)
    (each : Each (fun position node _ => Heeds input true position node) (start + 1) arguments) :
    Munches input true start (.rule .call (.leaf callee :: arguments)) finish := by
  have recognises : Recognises true .call true := rfl
  refine .of_each recognises ⟨rfl, ends⟩ ⟨child_of_declared id, ?_⟩ ?_
  · simpa using each.imp fun _ _ _ heeds => ⟨heeds, False.elim⟩
  · rw [List.flatMap_cons, leaves_leaf, List.singleton_append, List.length_cons]
    omega

/-- Whether calls are recognised among the operands of a conditional or not, it ends with the last
of them. -/
theorem munches_conditional
    {keyword : Token} {first second third : Node} {behindFirst behindSecond : Int}
    (standing : input.At start [.keyword .choose] keyword)
    (munchesFirst : Munches input inner (start + 1) first behindFirst)
    (munchesSecond : Munches input inner behindFirst second behindSecond)
    (munchesThird : Munches input inner behindSecond third finish)
    (ended : input.Ended .sum finish) :
    Munches input calls start (.rule .conditional [.leaf keyword, first, second, third])
      finish := by
  have recognises : Recognises calls .conditional inner := trivial
  have second_eq := munchesFirst.spans
  have third_eq := munchesSecond.spans
  have finish_eq := munchesThird.spans
  subst second_eq third_eq
  refine .of_each recognises ended.not_ahead_binary
    ⟨child_of_at standing (by decide), ?_, ?_, ?_, trivial⟩ ?_
  · simpa using munchesFirst.child
  · simpa using munchesSecond.child
  · simpa using munchesThird.child
  · simp
    omega

private theorem munches_signed
    {sign : Token} {node : Node} (standing : input.At start [.plus, .minus] sign)
    (munches : Munches input calls (start + 1) node finish) :
    Munches input calls start (.rule .signed [.leaf sign, node]) finish := by
  have recognises : Recognises calls .signed calls := rfl
  have finish_eq := munches.spans
  refine .of_each recognises trivial ⟨child_of_at standing (by decide), ?_, trivial⟩ ?_
  · simpa using munches.child
  · simp
    omega

/-- A statement holds one of three kinds of branches. -/
theorem heeded_statement
    {symbol : Symbol} {children nodes : List Node}
    (isStatement : nodes = [.rule .statement [.rule symbol children]])
    (munches : Munches input calls start (.rule symbol children) finish) :
    (Part.statement calls).Heeded input start nodes finish := by
  have recognises : Recognises calls .statement calls := rfl
  have statement : Munches input calls start (.rule .statement [.rule symbol children]) finish :=
    .of_each recognises trivial ⟨munches.child, trivial⟩ (by simpa using munches.spans)
  exact ⟨_, isStatement, statement.spans, statement.heeds⟩

/-- Only the body of a definition stands alone. -/
theorem munches_functionDef
    {keyword name equals : Token} {names : List Token} {body : Node}
    (standing : input.At start [.keyword .define] keyword)
    (standingEquals : input.At (start + 1 + 1 + names.length) [.equals] equals)
    (munches : Munches input calls (start + 1 + 1 + names.length + 1) body finish) :
    Munches input calls start
      (.rule .functionDef
        (.leaf keyword :: .leaf name :: (names.map .leaf ++ [.leaf equals, body])))
      finish := by
  have recognises : Recognises calls .functionDef calls := rfl
  have finish_eq := munches.spans
  have declared : ∀ position token behind, behind ≠ [] →
      input.Child .functionDef calls position (.leaf token) behind :=
    fun _ _ _ nonempty => child_of_declared nonempty
  refine .of_each recognises trivial ⟨child_of_at standing (by decide),
    declared _ _ _ (by simp), ?_⟩ ?_
  · refine each_names_append (List.cons_ne_nil _ _) declared names
      ⟨child_of_at standingEquals (by decide), ?_, trivial⟩
    simpa using munches.child
  · simp
    omega

/-- Only the value of a declaration stands alone. -/
theorem munches_variableDecl
    {keyword name equals : Token} {value : Node}
    (standing : input.At start [.keyword .declare] keyword)
    (standingEquals : input.At (start + 1 + 1) [.equals] equals)
    (munches : Munches input calls (start + 1 + 1 + 1) value finish) :
    Munches input calls start
      (.rule .variableDecl [.leaf keyword, .leaf name, .leaf equals, value]) finish := by
  have recognises : Recognises calls .variableDecl calls := rfl
  have finish_eq := munches.spans
  refine .of_each recognises trivial ⟨child_of_at standing (by decide),
    child_of_declared (List.cons_ne_nil _ _), child_of_at standingEquals (by decide), ?_,
    trivial⟩ ?_
  · simpa using munches.child
  · simp
    omega

private theorem munches_outputStmt
    {keyword : Token} {value : Node} (standing : input.At start [.keyword .output] keyword)
    (munches : Munches input calls (start + 1) value finish) :
    Munches input calls start (.rule .outputStmt [.leaf keyword, value]) finish := by
  have recognises : Recognises calls .outputStmt calls := rfl
  have finish_eq := munches.spans
  refine .of_each recognises trivial ⟨child_of_at standing (by decide), ?_, trivial⟩ ?_
  · simpa using munches.child
  · simp
    omega

/-- Whatever is derived is read as the grammar reads it. -/
theorem Reads.heeded
    {part : Part} {nodes : List Node} (reads : Reads input starved part start nodes finish) :
    part.Heeded input start nodes finish := by
  induction reads with
  | leafAtom standing => exact ⟨_, rfl, by simp, fun _ => .leaf⟩
  | groupAtom _ group =>
      obtain ⟨node, isNode, munches⟩ := group
      exact ⟨node, isNode, (munches true).spans, fun calls => (munches calls).heeds⟩
  | group opening _ closing inner =>
      obtain ⟨_, ⟨⟩, munches, _⟩ := inner
      exact ⟨_, rfl, fun calls => munches_group opening munches closing⟩
  | noAtoms none => exact ⟨by simp, none, fun _ => trivial⟩
  | moreAtoms _ _ first rest =>
      obtain ⟨_, ⟨⟩, next_eq, heeds⟩ := first
      obtain ⟨finish_eq, ends, each⟩ := rest
      subst next_eq
      refine ⟨?_, ends, fun calls => ⟨heeds calls, each calls⟩⟩
      rw [List.flatMap_cons, List.length_append]
      omega
  | call callee _ _ arguments =>
      obtain ⟨finish_eq, ends, each⟩ := arguments
      exact ⟨_, rfl, munches_call ends finish_eq (each true)⟩
  | @atomTerm _ start _ _ atom alone inductionHypothesis =>
      obtain ⟨_, ⟨⟩, finish_eq, heeds⟩ := inductionHypothesis
      refine ⟨_, rfl, heeds _, finish_eq, ?_⟩
      rintro recognised token rfl isName
      have standing : input.At start [.numeral, .identifier, .keyword .input] token := by
        cases atom with
        | leafAtom standing => exact standing
        | groupAtom group => cases group
      rw [finish_eq]
      simpa using alone recognised ⟨token, standing.1, by simp [isName]⟩
  | conditionalTerm _ conditional =>
      obtain ⟨node, isNode, munches⟩ := conditional
      exact ⟨node, isNode, munches _⟩
  | conditional keyword _ _ _ _ first second third =>
      obtain ⟨_, ⟨⟩, munches₁, _⟩ := first
      obtain ⟨_, ⟨⟩, munches₂, _⟩ := second
      obtain ⟨_, ⟨⟩, munches₃, ended⟩ := third
      exact ⟨_, rfl, fun _ => munches_conditional keyword munches₁ munches₂ munches₃ ended⟩
  | sign token _ operand =>
      obtain ⟨_, ⟨⟩, munches⟩ := operand
      exact ⟨_, rfl, munches_signed token munches⟩
  | unsigned _ _ term => exact term
  | chain _ _ first rest =>
      obtain ⟨_, ⟨⟩, munches, loose⟩ := heeded_operand first
      exact rest _ munches loose
  | noRest none =>
      intro start munches loose
      exact ⟨_, rfl, munches, none, loose⟩
  | moreRest operator _ _ right rest =>
      intro start munches _
      obtain ⟨_, ⟨⟩, munchesRight, loose⟩ := heeded_operand right
      exact rest start (munches_joined munches operator munchesRight) loose
  | noNames _ => exact ⟨[], rfl, by simp⟩
  | moreNames _ _ rest =>
      obtain ⟨names, rfl, finish_eq⟩ := rest
      refine ⟨_ :: names, rfl, ?_⟩
      simp
      omega
  | functionDef keyword _ _ equals _ parameters body =>
      obtain ⟨names, rfl, rfl⟩ := parameters
      obtain ⟨_, ⟨⟩, munches, _⟩ := body
      exact heeded_statement rfl (munches_functionDef keyword equals munches)
  | variableDecl keyword _ equals _ value =>
      obtain ⟨_, ⟨⟩, munches, _⟩ := value
      exact heeded_statement rfl (munches_variableDecl keyword equals munches)
  | outputStmt keyword _ value =>
      obtain ⟨_, ⟨⟩, munches, _⟩ := value
      exact heeded_statement rfl (munches_outputStmt keyword munches)
  | noStatements _ => exact ⟨by simp, trivial⟩
  | moreStatements _ _ _ first rest =>
      obtain ⟨_, ⟨⟩, next_eq, heeds⟩ := first
      obtain ⟨finish_eq, each⟩ := rest
      subst next_eq
      refine ⟨?_, heeds, each⟩
      rw [List.flatMap_cons, List.length_append]
      omega

/-- Calls are recognised in a program as long as nothing says otherwise. -/
theorem Derives.heeds
    {root : Node} (derives : Derives input starved root) : Heeds input true 0 root := by
  obtain ⟨statements, finish, token, reads, _, rfl⟩ := derives
  have recognises : Recognises true .program true := rfl
  have finish : ∀ position,
      Each (fun position node _ => Heeds input true position node) position [.leaf token] :=
    fun _ => ⟨.leaf, trivial⟩
  have each := reads.heeded.2.append (finish _)
  exact .of_each recognises trivial (each.imp fun _ _ _ heeds => ⟨heeds, False.elim⟩)

/-! ## Down a path -/

/-- What encloses the end of a path is a conditional, and none of its operands shows a call. -/
def CallFreeAround (path : List Step) : Prop :=
  ∃ enclosing, enclosing? path = some enclosing ∧ enclosing.IsBranch [.conditional] ∧
    ∀ operand ∈ enclosing.children.tail, ∀ shown, operand.Shows shown → ¬ shown.IsBranch [.call]

/-- Every node below the root is read where its leaves begin, and calls are not recognised around it
only within a conditional that shows none. -/
theorem Heeds.along
    {root node : Node} {path : List Step} (heeds : Heeds input true 0 root)
    (below : root.Below path node) :
    ∃ calls, Heeds input calls (leavesBefore path).length node ∧
      (calls = false → CallFreeAround path) ∧
        (IsOperandName path node → calls = true →
          input.Separate node ((leavesBefore path).length + node.leaves.length)) := by
  induction below with
  | root => exact ⟨true, heeds, nofun, nofun⟩
  | @child path parent child before behind _ children inductionHypothesis =>
      obtain ⟨calls, heedsParent, around, _⟩ := inductionHypothesis
      cases heedsParent with
      | leaf => exact absurd children (by simp [Node.children])
      | @rule _ inner _ symbol siblings recognises _ heedsChildren separate =>
          rw [leavesBefore, List.length_append, Int.natCast_add]
          refine ⟨inner, heedsChildren _ _ _ children, fun unrecognised => ?_, ?_⟩
          · rcases recognises.cases with ⟨_, recognised⟩ | rfl | ⟨unenclosed, rfl⟩
            · rw [unrecognised] at recognised
              cases recognised
            · refine ⟨_, rfl, List.mem_singleton_self _, fun operand member shown shows => ?_⟩
              obtain ⟨before, behind, split⟩ := List.append_of_mem (List.mem_of_mem_tail member)
              exact (unrecognised ▸ heedsChildren before operand behind split).no_call shows
            · obtain ⟨enclosing, found, free⟩ := around unrecognised
              have passed : (Node.rule symbol siblings).symbol ∉ enclosures := unenclosed
              exact ⟨enclosing, (enclosing?_cons_of_not_mem passed).trans found, free⟩
          · rintro ⟨token, step, rest, _, _, ⟨⟩, standsAlone⟩
            exact separate _ _ _ children standsAlone

/-- What the token behind a node tells about the node. -/
structure Munched (path : List Step) (node : Node) (next : Token) : Prop where
  conditional : node.IsBranch [.conditional] → next.symbol ∉ binary
  call : node.IsBranch [.call] → next.symbol ∉ atomStart
  name : IsOperandName path node → next.symbol ∈ atomStart → CallFreeAround path

private theorem tokenAt?_toArray_append
    (front : List Token) (next : Token) (rest : List Token) {path : Option String}
    {settings : Settings} :
    (Input.mk (front ++ next :: rest).toArray path settings).tokenAt? front.length = some next :=
  (spells_toArray front [next] rest).1

/-- The token at the position behind a node tells what positions tell. -/
theorem Heeds.munched
    {root node : Node} {path : List Step} {next : Token} (heeds : Heeds input true 0 root)
    (below : root.Below path node)
    (found : input.tokenAt? ((leavesBefore path).length + node.leaves.length) = some next) :
    Munched path node next := by
  obtain ⟨calls, heeds, around, separate⟩ := heeds.along below
  have ahead : ∀ {symbols}, next.symbol ∈ symbols →
      input.Ahead symbols ((leavesBefore path).length + node.leaves.length) :=
    fun member => ⟨next, found, member⟩
  refine ⟨fun isConditional member => ?_, fun isCall member => ?_, fun isName member => ?_⟩
  · cases heeds with
    | leaf => exact isConditional
    | rule _ closes _ _ =>
        cases List.mem_singleton.mp isConditional
        rw [← leaves_rule] at closes
        exact closes (ahead member)
  · cases heeds with
    | leaf => exact isCall
    | rule _ closes _ _ =>
        cases List.mem_singleton.mp isCall
        rw [← leaves_rule] at closes
        exact closes.2 (ahead member)
  · cases calls with
    | false => exact around rfl
    | true =>
        have separate := separate isName rfl
        obtain ⟨token, _, _, isLeaf, isIdentifier, _⟩ := isName
        exact absurd (ahead member) (separate token isLeaf isIdentifier)

end RomanScript.Grammar

namespace RomanScript.Tree

open Grammar Node

/-- In every accepted tree, an operator never follows a conditional, so that none ends the left
operand of an operator; an atom never follows a call; and an atom follows a name that is an operand
or a whole expression only if the innermost group or conditional around it is a conditional whose
operands show no call. -/
theorem ofTokens_munched
    {tokens : List Token} {path : Option String} {tree : Tree}
    (accepted : ofTokens tokens path = .ok tree) :
    ∀ steps node, tree.root.Below steps node →
      (∃ rest, tokens = leavesBefore steps ++ (node.leaves ++ rest) ∧
        ∀ next, rest.head? = some next → Munched steps node next) ∧
      ∀ left operator right, node.children = [left, .leaf operator, right] →
        operator.symbol ∈ binary →
          ∀ final, left.EndsWith final → ¬ final.IsBranch [.conditional] := by
  obtain ⟨finished, _⟩ := exists_of_ofTokensUnder_ok accepted
  have terminated := terminated_of_getLast? finished path .full
  have starves : Starves ⟨tokens.toArray, path, .full⟩ fun _ => True :=
    fun _ _ _ _ _ _ _ => trivial
  rcases ofTokensUnder_cases finished starves with ⟨root, read, derives⟩ | ⟨diagnostic, failed⟩
  · cases read.symm.trans accepted
    obtain ⟨before, finish, behind, split, _, _, phrase⟩ := derives.exists_split terminated
    have whole : ∀ {steps node}, root.Below steps node →
        tokens = (leavesBefore steps ++ node.leaves) ++ (leavesBehind steps ++ behind) := by
      intro steps node below
      have leaves_eq := below.leaves_eq
      rw [phrase.leaves_eq] at leaves_eq
      rw [split, List.append_cons, leaves_eq]
      simp
    have munched : ∀ {steps node next rest}, root.Below steps node →
        leavesBehind steps ++ behind = next :: rest → Munched steps node next := by
      intro steps node next rest below isBehind
      refine derives.heeds.munched below ?_
      rw [whole below, isBehind, ← Int.natCast_add, ← List.length_append]
      exact tokenAt?_toArray_append _ next rest
    intro steps node below
    refine ⟨⟨_, List.append_assoc _ _ _ ▸ whole below, fun next isNext => ?_⟩, ?_⟩
    · obtain ⟨rest, isBehind⟩ := List.head?_eq_some_iff.mp isNext
      exact munched below isBehind
    · intro left operator right children isBinary final endsWith isConditional
      have belowLeft : root.Below (⟨node, [], [.leaf operator, right]⟩ :: steps) left :=
        below.child children
      obtain ⟨longer, belowFinal, same⟩ := belowLeft.exists_of_endsWith endsWith
      have isBehind : leavesBehind longer ++ behind =
          operator :: (right.leaves ++ leavesBehind steps ++ behind) := by
        simp [same, leavesBehind]
      exact (munched belowFinal isBehind).conditional isConditional isBinary
  · rw [ofTokens, failed] at accepted
    cases accepted

/-- The conditional in the tree of `repeatedGroup`, whose first operand would take the second one as
an argument. -/
def repeatedGroupConditional : Node :=
  .rule .conditional [.leaf ⟨.keyword .choose, "Sinon", 1, 1⟩, .leaf ⟨.identifier, "x", 1, 2⟩,
    .rule .group [.leaf ⟨.openParen, "(", 1, 3⟩, .leaf ⟨.numeral, "I", 1, 4⟩,
      .leaf ⟨.closeParen, ")", 1, 5⟩],
    .leaf ⟨.identifier, "y", 1, 6⟩]

def repeatedGroupRoot : Node :=
  .rule .program
    [.rule .statement
      [.rule .outputStmt [.leaf ⟨.keyword .output, "Grafo", 1, 0⟩, repeatedGroupConditional]],
    .leaf ⟨.endOfText, "", 1, 7⟩]

theorem ofTokens_munched_repeatedGroup :
    ofTokens repeatedGroup none = .ok ⟨repeatedGroupRoot, none⟩ ∧
      ∃ steps, repeatedGroupRoot.Below steps (.leaf ⟨.identifier, "x", 1, 2⟩) ∧
        IsOperandName steps (.leaf ⟨.identifier, "x", 1, 2⟩) ∧
          enclosing? steps = some repeatedGroupConditional ∧
            ∃ rest, repeatedGroup = leavesBefore steps ++ (⟨.identifier, "x", 1, 2⟩ :: rest) ∧
              ∀ next, rest.head? = some next →
                Munched steps (.leaf ⟨.identifier, "x", 1, 2⟩) next := by
  have accepted : ofTokens repeatedGroup none = .ok ⟨repeatedGroupRoot, none⟩ := by
    decide +kernel
  have split : ∀ {before child behind symbol},
      (Node.rule symbol (before ++ child :: behind)).children = before ++ child :: behind := rfl
  have below : repeatedGroupRoot.Below _ (.leaf ⟨.identifier, "x", 1, 2⟩) :=
    (((Below.root.child (@split [] _ _ _)).child (@split [] _ _ _)).child
      (@split [_] _ _ _)).child (@split [_] _ _ _)
  obtain ⟨munched, _⟩ := ofTokens_munched accepted _ _ below
  rw [leaves_leaf] at munched
  exact ⟨accepted, _, below, ⟨_, _, _, rfl, rfl, rfl, trivial⟩, rfl, munched⟩

end RomanScript.Tree
