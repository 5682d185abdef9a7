import Mathlib.Data.List.Forall2
import Mathlib.Tactic.SplitIfs
import RomanScript.Program.Lowering

/-!
# What lowering gives

A lowering that succeeds, read backwards: which nodes the parts of the program come from, and what
was found out about their names on the way.
-/

namespace RomanScript.Program

def signatures (program : Program) : Signatures :=
  program.functions.map fun function => (function.name, function.arity)

@[simp] theorem map_fst_signatures (program : Program) :
    program.signatures.map (·.1) = program.functions.map Function.name := by
  simp [signatures, Function.comp_def]

variable {α β : Type} {path : Option String} {signatures : Signatures}

theorem exists_of_bind_eq_ok
    {first : Except Failure α} {next : α → Except Failure β} {value : β}
    (succeeded : (first >>= next) = .ok value) :
    ∃ early, first = .ok early ∧ next early = .ok value := by
  cases first with
  | error failure => cases succeeded
  | ok early => exact ⟨early, rfl, succeeded⟩

theorem childAt_eq_ok {node child : Node} {index : Nat} :
    childAt node index = .ok child ↔ node.children[index]? = some child := by
  unfold childAt
  cases node.children[index]? <;> simp

theorem lastChild_eq_ok {node child : Node} :
    lastChild node = .ok child ↔ node.children.getLast? = some child := by
  unfold lastChild
  cases node.children.getLast? <;> simp

theorem of_ite_refuse
    {condition : Prop} [Decidable condition] {problem : Problem} {name : Node}
    {other : Except Failure α} {value : α}
    (succeeded : (if condition then refuse path problem name else other) = .ok value) :
    ¬ condition ∧ other = .ok value := by
  split_ifs at succeeded with refused
  · cases succeeded
  · exact ⟨refused, succeeded⟩

theorem isSome_lookup_iff {name : String} :
    (signatures.lookup name).isSome = true ↔ name ∈ signatures.map (·.1) := by
  rw [List.lookup_isSome_iff, List.mem_map]
  exact exists_congr fun signature => and_congr_right fun _ => beq_iff_eq.trans eq_comm

private theorem nodup_append_singleton
    {names : List String} {name : String} (distinct : names.Nodup) (fresh : name ∉ names) :
    (names ++ [name]).Nodup := by
  refine List.nodup_append.mpr ⟨distinct, by simp, fun other member last isLast same => ?_⟩
  rw [same, List.mem_singleton.mp isLast] at member
  exact fresh member

theorem mem_of_lookup
    {name : String} {arity : Nat} (found : signatures.lookup name = some arity) :
    (name, arity) ∈ signatures := by
  obtain ⟨before, behind, split, _⟩ := List.lookup_eq_some_iff.mp found
  rw [split]
  exact List.mem_append_right _ (.head _)

section Expressions

variable {scope : List String} {callee : Node}

/-- A call that is lowered is one of a known function, with as many arguments as it takes. -/
theorem exists_of_lowerCall
    {arguments : Except Failure (List Expression)} {expression : Expression}
    (lowered : lowerCall path signatures callee arguments = .ok expression) :
    ∃ expressions, arguments = .ok expressions ∧
      signatures.lookup callee.text = some expressions.length ∧
        expression = .call callee.text expressions := by
  unfold lowerCall at lowered
  split at lowered
  · cases lowered
  · rename_i arity known
    obtain ⟨expressions, areExpressions, lowered⟩ := exists_of_bind_eq_ok lowered
    split_ifs at lowered with exactly
    · cases lowered
      exact ⟨expressions, areExpressions, exactly ▸ known, rfl⟩
    · cases lowered

/-- A call of a known function with as many arguments as it has parameters. -/
theorem lowerCall_of_lookup
    {expressions : List Expression}
    (known : signatures.lookup callee.text = some expressions.length) :
    lowerCall path signatures callee (.ok expressions) = .ok (.call callee.text expressions) := by
  rw [lowerCall, known]
  exact if_pos rfl

/-- What holds of the expressions of simple nodes, and of every expression if it holds of those
right below, holds of all that nodes are lowered to. -/
theorem lowered_induction
    {motive : Node → Expression → Prop} {motives : List Node → List Expression → Prop}
    (binary : ∀ symbol text line column height left operatorNode right operator first second,
      symbol = .sum ∨ symbol = .product → operatorOf operatorNode = .ok operator →
      motive left first → motive right second →
      motive (.branch symbol text line column height [left, operatorNode, right])
        (.binary operator first second))
    (signed : ∀ text line column height sign operand operator value,
      operatorOf sign = .ok operator → motive operand value →
      motive (.branch .signed text line column height [sign, operand]) (.unary operator value))
    (group : ∀ text line column height opening inner behind expression,
      motive inner expression →
      motive (.branch .group text line column height (opening :: inner :: behind)) expression)
    (conditional : ∀ text line column height keyword condition consequence alternative
      first second third,
      motive condition first → motive consequence second → motive alternative third →
      motive (.branch .conditional text line column height
        [keyword, condition, consequence, alternative]) (.conditional first second third))
    (call : ∀ text line column height callee arguments expressions,
      signatures.lookup callee.text = some expressions.length → motives arguments expressions →
      motive (.branch .call text line column height (callee :: arguments))
        (.call callee.text expressions))
    (simple : ∀ node expression,
      (∀ others, lower path others scope node = lowerSimple path others scope node) →
      lowerSimple path signatures scope node = .ok expression → motive node expression)
    (nil : motives [] [])
    (cons : ∀ node rest first others, motive node first → motives rest others →
      motives (node :: rest) (first :: others)) :
    (∀ node expression, lower path signatures scope node = .ok expression →
      motive node expression) ∧
    ∀ nodes expressions, lowerAll path signatures scope nodes = .ok expressions →
      motives nodes expressions := by
  have binaryCase : ∀ symbol text line column height left operatorNode right,
      symbol = .sum ∨ symbol = .product →
      (∀ expression, lower path signatures scope left = .ok expression → motive left expression) →
      (∀ expression, lower path signatures scope right = .ok expression →
        motive right expression) →
      ∀ expression, (do
        let operator ← operatorOf operatorNode
        let left ← lower path signatures scope left
        let right ← lower path signatures scope right
        return Expression.binary operator left right) = .ok expression →
      motive (.branch symbol text line column height [left, operatorNode, right]) expression := by
    intro symbol text line column height left operatorNode right isBinary holdsLeft holdsRight
      expression lowered
    obtain ⟨operator, isOperator, lowered⟩ := exists_of_bind_eq_ok lowered
    obtain ⟨first, isFirst, lowered⟩ := exists_of_bind_eq_ok lowered
    obtain ⟨second, isSecond, lowered⟩ := exists_of_bind_eq_ok lowered
    cases lowered
    exact binary _ _ _ _ _ _ _ _ _ _ _ isBinary isOperator (holdsLeft first isFirst)
      (holdsRight second isSecond)
  -- The induction is on the calls of the two functions, as they are defined together.
  apply lower.mutual_induct
  case case1 =>
    intro text line column height left operator right holdsLeft holdsRight expression lowered
    rw [lower] at lowered
    exact binaryCase _ _ _ _ _ _ _ _ (.inl rfl) holdsLeft holdsRight expression lowered
  case case2 =>
    intro text line column height left operator right holdsLeft holdsRight expression lowered
    rw [lower] at lowered
    exact binaryCase _ _ _ _ _ _ _ _ (.inr rfl) holdsLeft holdsRight expression lowered
  case case3 =>
    intro text line column height sign operand holds expression lowered
    rw [lower] at lowered
    obtain ⟨operator, isOperator, lowered⟩ := exists_of_bind_eq_ok lowered
    obtain ⟨value, isValue, lowered⟩ := exists_of_bind_eq_ok lowered
    cases lowered
    exact signed _ _ _ _ _ _ _ _ isOperator (holds value isValue)
  case case4 =>
    intro text line column height opening inner behind holds expression lowered
    rw [lower] at lowered
    exact group _ _ _ _ _ _ _ _ (holds expression lowered)
  case case5 =>
    intro text line column height keyword condition consequence alternative holdsCondition
      holdsConsequence holdsAlternative expression lowered
    rw [lower] at lowered
    obtain ⟨first, isFirst, lowered⟩ := exists_of_bind_eq_ok lowered
    obtain ⟨second, isSecond, lowered⟩ := exists_of_bind_eq_ok lowered
    obtain ⟨third, isThird, lowered⟩ := exists_of_bind_eq_ok lowered
    cases lowered
    exact conditional _ _ _ _ _ _ _ _ _ _ _ (holdsCondition first isFirst)
      (holdsConsequence second isSecond) (holdsAlternative third isThird)
  case case6 =>
    intro text line column height callee arguments holds expression lowered
    rw [lower] at lowered
    obtain ⟨expressions, areExpressions, known, rfl⟩ := exists_of_lowerCall lowered
    exact call _ _ _ _ _ _ _ known (holds expressions areExpressions)
  case case7 =>
    intro node notSum notProduct notSigned notGroup notConditional notCall expression lowered
    have isSimple : ∀ others, lower path others scope node = lowerSimple path others scope node := by
      intro others
      rw [lower]
      all_goals assumption
    exact simple node expression isSimple (isSimple signatures ▸ lowered)
  case case8 =>
    intro expressions lowered
    cases lowered
    exact nil
  case case9 =>
    intro node rest holdsFirst holdsRest expressions lowered
    rw [lowerAll] at lowered
    obtain ⟨first, isFirst, lowered⟩ := exists_of_bind_eq_ok lowered
    obtain ⟨others, areOthers, lowered⟩ := exists_of_bind_eq_ok lowered
    cases lowered
    exact cons _ _ _ _ (holdsFirst first isFirst) (holdsRest others areOthers)

end Expressions

def Signs (definition : Node) (signature : String × Nat) : Prop :=
  ∃ name, definition.children[1]? = some name ∧
    signature = (name.text, (parameterNodes definition).length)

/-- The function of a definition, beside functions of the given signatures. -/
structure Defines (path : Option String) (signatures : Signatures) (definition : Node)
    (function : Function) : Prop where
  name : ∃ name, definition.children[1]? = some name ∧ function.name = name.text
  parameters : function.parameters = (parameterNodes definition).map Node.text
  distinct : function.parameters.Nodup
  body : ∃ body, definition.children.getLast? = some body ∧
    lower path signatures function.parameters body = .ok function.body

theorem forall₂_signs_of_ok
    {found signatures : Signatures} {definitions : List Node}
    (signed : signaturesFrom path found definitions = .ok signatures)
    (distinct : (found.map (·.1)).Nodup) :
    (signatures.map (·.1)).Nodup ∧
      ∃ added, signatures = found ++ added ∧ List.Forall₂ Signs definitions added := by
  induction definitions generalizing found with
  | nil =>
      cases signed
      exact ⟨distinct, [], (List.append_nil _).symm, .nil⟩
  | cons definition rest inductionHypothesis =>
      rw [signaturesFrom] at signed
      obtain ⟨name, isName, signed⟩ := exists_of_bind_eq_ok signed
      obtain ⟨known, signed⟩ := of_ite_refuse signed
      have fresh : name.text ∉ found.map (·.1) := mt isSome_lookup_iff.mpr known
      let signature := (name.text, (parameterNodes definition).length)
      have more : ((found ++ [signature]).map (·.1)).Nodup := by
        rw [List.map_append]
        exact nodup_append_singleton distinct fresh
      obtain ⟨allDistinct, added, split, signs⟩ := inductionHypothesis signed more
      refine ⟨allDistinct, signature :: added, ?_, ?_⟩
      · rw [split, List.append_assoc]
        rfl
      · exact .cons ⟨name, childAt_eq_ok.mp isName, rfl⟩ signs

private theorem parametersFrom_ok
    {found parameters : List String} {nodes : List Node}
    (named : parametersFrom path found nodes = .ok parameters) (distinct : found.Nodup) :
    parameters = found ++ nodes.map Node.text ∧ parameters.Nodup := by
  induction nodes generalizing found with
  | nil =>
      cases named
      exact ⟨(List.append_nil _).symm, distinct⟩
  | cons node rest inductionHypothesis =>
      rw [parametersFrom] at named
      obtain ⟨known, named⟩ := of_ite_refuse named
      have fresh : node.text ∉ found := by simpa using known
      have more := nodup_append_singleton distinct fresh
      obtain ⟨split, allDistinct⟩ := inductionHypothesis named more
      refine ⟨?_, allDistinct⟩
      rw [split, List.append_assoc]
      rfl

theorem defines_of_ok
    {definition : Node} {function : Function}
    (lowered : lowerFunction path signatures definition = .ok function) :
    Defines path signatures definition function := by
  obtain ⟨parameters, named, lowered⟩ := exists_of_bind_eq_ok lowered
  obtain ⟨bodyNode, isBody, lowered⟩ := exists_of_bind_eq_ok lowered
  obtain ⟨body, isLowered, lowered⟩ := exists_of_bind_eq_ok lowered
  obtain ⟨name, isName, lowered⟩ := exists_of_bind_eq_ok lowered
  cases lowered
  obtain ⟨same, distinct⟩ := parametersFrom_ok named .nil
  exact {
    name := ⟨name, childAt_eq_ok.mp isName, rfl⟩
    parameters := same
    distinct := distinct
    body := ⟨bodyNode, lastChild_eq_ok.mp isBody, isLowered⟩ }

theorem forall₂_defines_of_ok
    {definitions : List Node} {functions : List Function}
    (lowered : lowerFunctions path signatures definitions = .ok functions) :
    List.Forall₂ (Defines path signatures) definitions functions := by
  induction definitions generalizing functions with
  | nil =>
      cases lowered
      exact .nil
  | cons definition rest inductionHypothesis =>
      obtain ⟨first, isFirst, lowered⟩ := exists_of_bind_eq_ok lowered
      obtain ⟨others, areOthers, lowered⟩ := exists_of_bind_eq_ok lowered
      cases lowered
      exact .cons (defines_of_ok isFirst) (inductionHypothesis areOthers)

/-- The functions of a program have the signatures of their definitions. -/
theorem signatures_eq_map
    {definitions : List Node} {functions : List Function} {found : Signatures}
    (signs : List.Forall₂ Signs definitions found)
    (defines : List.Forall₂ (Defines path signatures) definitions functions) :
    found = functions.map fun function => (function.name, function.arity) := by
  induction signs generalizing functions with
  | nil =>
      cases defines
      rfl
  | @cons definition signature _ _ sign _ inductionHypothesis =>
      cases defines with
      | @cons _ function _ _ define rest =>
          obtain ⟨name, isName, rfl⟩ := sign
          obtain ⟨name', isName', named⟩ := define.name
          cases isName.symm.trans isName'
          rw [List.map_cons, ← inductionHypothesis rest, Function.arity, define.parameters, named,
            List.length_map]

/-- The statements of the main text, each beside the variables declared before it. -/
inductive States (path : Option String) (signatures : Signatures) :
    List String → List Node → List Statement → Prop
  | done {declared : List String} : States path signatures declared [] []
  | declaration {declared : List String} {node name valueNode : Node} {value : Expression}
      {rest : List Node} {statements : List Statement} :
      node.symbol = .variableDecl → node.children[1]? = some name →
      node.children[3]? = some valueNode → name.text ∉ signatures.map (·.1) →
      name.text ∉ declared → lower path signatures declared valueNode = .ok value →
      States path signatures (declared ++ [name.text]) rest statements →
      States path signatures declared (node :: rest) (.declaration name.text value :: statements)
  | output {declared : List String} {node valueNode : Node} {value : Expression}
      {rest : List Node} {statements : List Statement} :
      node.symbol = .outputStmt → node.children[1]? = some valueNode →
      lower path signatures declared valueNode = .ok value →
      States path signatures declared rest statements →
      States path signatures declared (node :: rest) (.output value :: statements)
  | other {declared : List String} {node : Node} {rest : List Node}
      {statements : List Statement} :
      node.symbol ≠ .variableDecl → node.symbol ≠ .outputStmt →
      States path signatures declared rest statements →
      States path signatures declared (node :: rest) statements

private theorem states_of_ok
    {declared : List String} {bodies : List Node} {statements : List Statement}
    (lowered : lowerStatements path signatures declared bodies = .ok statements) :
    States path signatures declared bodies statements := by
  induction bodies generalizing declared statements with
  | nil =>
      cases lowered
      exact .done
  | cons node rest inductionHypothesis =>
      rw [lowerStatements] at lowered
      split at lowered
      · rename_i isDeclaration
        obtain ⟨name, isName, lowered⟩ := exists_of_bind_eq_ok lowered
        obtain ⟨notFunction, lowered⟩ := of_ite_refuse lowered
        obtain ⟨known, lowered⟩ := of_ite_refuse lowered
        obtain ⟨valueNode, isValue, lowered⟩ := exists_of_bind_eq_ok lowered
        obtain ⟨value, isLowered, lowered⟩ := exists_of_bind_eq_ok lowered
        obtain ⟨others, areOthers, lowered⟩ := exists_of_bind_eq_ok lowered
        cases lowered
        exact .declaration isDeclaration (childAt_eq_ok.mp isName) (childAt_eq_ok.mp isValue)
          (mt isSome_lookup_iff.mpr notFunction) (by simpa using known)
          isLowered (inductionHypothesis areOthers)
      · rename_i isOutput
        obtain ⟨valueNode, isValue, lowered⟩ := exists_of_bind_eq_ok lowered
        obtain ⟨value, isLowered, lowered⟩ := exists_of_bind_eq_ok lowered
        obtain ⟨others, areOthers, lowered⟩ := exists_of_bind_eq_ok lowered
        cases lowered
        exact .output isOutput (childAt_eq_ok.mp isValue) isLowered (inductionHypothesis areOthers)
      · rename_i notDeclaration notOutput
        exact .other notDeclaration notOutput (inductionHypothesis lowered)

theorem forall₂_bodies_of_ok
    {statements bodies : List Node} (taken : statementBodies statements = .ok bodies) :
    List.Forall₂ (fun statement body => statement.children[0]? = some body) statements bodies := by
  induction statements generalizing bodies with
  | nil =>
      cases taken
      exact .nil
  | cons statement rest inductionHypothesis =>
      obtain ⟨first, isFirst, taken⟩ := exists_of_bind_eq_ok taken
      obtain ⟨others, areOthers, taken⟩ := exists_of_bind_eq_ok taken
      cases taken
      exact .cons (childAt_eq_ok.mp isFirst) (inductionHypothesis areOthers)

def sentencesOf (root : Node) : List Node :=
  root.statements.filterMap (·.children.head?)

theorem sentencesOf_eq
    {root : Node} {bodies : List Node}
    (firsts : List.Forall₂ (fun statement body => statement.children[0]? = some body)
      root.statements bodies) :
    sentencesOf root = bodies := by
  unfold sentencesOf
  generalize root.statements = statements at firsts ⊢
  induction firsts with
  | nil => rfl
  | cons first _ inductionHypothesis =>
      rw [← List.head?_eq_getElem?] at first
      simp [first, inductionHypothesis]

/-- A program and the nodes it comes from: the first children of the statements, the definitions
among them, and the rest. -/
structure Comes (path : Option String) (root : Node) (bodies : List Node) (program : Program) :
    Prop where
  first : List.Forall₂ (fun statement body => statement.children[0]? = some body) root.statements
    bodies
  functions : List.Forall₂ (Defines path program.signatures)
    (bodies.filter (·.symbol == .functionDef)) program.functions
  distinct : (program.functions.map (·.name)).Nodup
  statements : States path program.signatures [] bodies program.statements

theorem comes_of_ok
    {root : Node} {program : Program} (lowered : ofNode path root = .ok program) :
    ∃ bodies, Comes path root bodies program := by
  obtain ⟨bodies, taken, lowered⟩ := exists_of_bind_eq_ok lowered
  obtain ⟨found, signed, lowered⟩ := exists_of_bind_eq_ok lowered
  obtain ⟨functions, areFunctions, lowered⟩ := exists_of_bind_eq_ok lowered
  obtain ⟨statements, areStatements, lowered⟩ := exists_of_bind_eq_ok lowered
  cases lowered
  obtain ⟨distinct, added, split, signs⟩ := forall₂_signs_of_ok signed .nil
  have defines := forall₂_defines_of_ok areFunctions
  rw [List.nil_append] at split
  -- Bodies are lowered beside the signatures found first; these are the ones of the program.
  have same : found = Program.signatures ⟨functions, statements⟩ :=
    split.trans (signatures_eq_map signs defines)
  rw [same] at distinct defines areStatements
  rw [map_fst_signatures] at distinct
  exact ⟨bodies, forall₂_bodies_of_ok taken, defines, distinct, states_of_ok areStatements⟩

end RomanScript.Program
