import Mathlib.Data.List.Nodup
import RomanScript.Proofs.Program.Judged
import RomanScript.Proofs.Program.Phrased

/-!
# How programs are regained from their trees

The tree of a program that can be written is lowered to this very program: names are known where
they stand, and none is taken for another one.
-/

namespace RomanScript

open Program

variable {path : Option String} {signatures : Signatures} {scope : List String}

private theorem Program.bind_eq_of_ok
    {α β : Type} {first : Except Failure α} {next : α → Except Failure β} {early : α}
    {result : Except Failure β} (succeeded : first = .ok early) (continued : next early = result) :
    (first >>= next) = result := by
  rw [succeeded]
  exact continued

/-- With distinct names, a signature is the one that is looked up by its name. -/
theorem Program.lookup_of_mem
    {name : String} {arity : Nat} (distinct : (signatures.map (·.1)).Nodup)
    (member : (name, arity) ∈ signatures) : signatures.lookup name = some arity := by
  have known : (signatures.lookup name).isSome = true :=
    isSome_lookup_iff.mpr (List.mem_map_of_mem member)
  obtain ⟨other, found⟩ := Option.isSome_iff_exists.mp known
  have same := List.inj_on_of_nodup_map distinct (mem_of_lookup found) member rfl
  cases same
  exact found

private theorem Spelling.lower_enclosed (inner : Spelling) :
    lower path signatures scope inner.enclosed.2 = lower path signatures scope inner.2 := by
  rw [Spelling.enclosed, Node.rule, lower]

private theorem Operator.operatorOf_token (operator : Operator) :
    operatorOf (.leaf operator.token) = .ok operator := by
  cases operator <;> rfl

private theorem lower_joined (operator : Operator) (left right : Spelling) :
    lower path signatures scope (Spelling.joined operator.tier operator.token left right).2 = (do
      let left ← lower path signatures scope left.2
      let right ← lower path signatures scope right.2
      return .binary operator left right) := by
  cases operator <;> rw [Spelling.joined, Operator.tier, Grammar.Tier.symbol, Node.rule, lower] <;>
    rfl

/-- A numeral is lowered to its number. -/
theorem lower_literal {value : Int} (nonneg : 0 ≤ value) (low : value ≤ 3999) :
    lower path signatures scope (.leaf (.unplaced .numeral (Numeral.ofNat value.toNat))) =
      .ok (.literal value) := by
  have isValue := Numeral.value?_ofNat_toNat nonneg low
  rw [lower]
  · simp only [lowerSimple, Node.symbol, Node.text, Token.unplaced, isValue]
  all_goals simp

private theorem lower_name (name : String) :
    lower path signatures scope (.leaf (.unplaced .identifier name)) =
      lowerName path signatures scope (.leaf (.unplaced .identifier name)) := by
  rw [lower]
  · rfl
  all_goals simp

/-- A name in scope is a variable. -/
theorem lower_variable {name : String} (known : name ∈ scope) :
    lower path signatures scope (.leaf (.unplaced .identifier name)) = .ok (.variable name) := by
  have inScope : scope.contains name = true := List.contains_iff_mem.mpr known
  rw [lower_name, lowerName]
  exact if_pos inScope

/-- The name of a function without parameters is a call if it is not in scope. -/
theorem lower_callee
    {name : String} (known : signatures.lookup name = some 0) (unhidden : name ∉ scope) :
    lower path signatures scope (.leaf (.unplaced .identifier name)) = .ok (.call name []) := by
  have notInScope : ¬ scope.contains name = true := mt List.contains_iff_mem.mp unhidden
  have isFunction : (signatures.lookup name).isSome = true := by
    rw [known]
    rfl
  rw [lower_name, lowerName]
  refine (if_neg notInScope).trans ((if_pos isFunction).trans ?_)
  exact lowerCall_of_lookup known

private theorem lowerAll_enclosed
    {arguments : List Expression}
    (lowered : ∀ argument ∈ arguments,
      lower path signatures scope argument.spelling.2 = .ok argument) :
    lowerAll path signatures scope
      ((arguments.map fun argument => argument.spelling.enclosed).map (·.2)) = .ok arguments := by
  induction arguments with
  | nil => rfl
  | cons first rest inductionHypothesis =>
      rw [List.forall_mem_cons] at lowered
      rw [List.map_cons, List.map_cons, lowerAll, Spelling.lower_enclosed]
      exact bind_eq_of_ok lowered.1 (bind_eq_of_ok (inductionHypothesis lowered.2) rfl)

/-- The node of an expression that can be written is lowered to the expression. -/
theorem Expression.Writable.lower
    (distinct : (signatures.map (·.1)).Nodup) {expression : Expression}
    (writable : expression.Writable signatures scope) :
    lower path signatures scope expression.spelling.2 = .ok expression := by
  induction writable with
  | @literal value low high =>
      rw [spelling]
      exact lower_literal low high
  | named _ known => exact lower_variable known
  | input => rfl
  | @unary operator operand _ _ inductionHypothesis =>
      rw [spelling, Spelling.signed, Node.rule, Program.lower, Spelling.lower_enclosed]
      exact bind_eq_of_ok operator.operatorOf_token (bind_eq_of_ok inductionHypothesis rfl)
  | @binary operator left right _ _ lowerLeft lowerRight =>
      rw [spelling, lower_joined, Spelling.lower_enclosed, Spelling.lower_enclosed]
      exact bind_eq_of_ok lowerLeft (bind_eq_of_ok lowerRight rfl)
  | conditional _ _ _ lowerCondition lowerConsequence lowerAlternative =>
      rw [spelling, Spelling.chosen, Node.rule, Program.lower, Spelling.lower_enclosed,
        Spelling.lower_enclosed, Spelling.lower_enclosed]
      exact bind_eq_of_ok lowerCondition
        (bind_eq_of_ok lowerConsequence (bind_eq_of_ok lowerAlternative rfl))
  | @call name arguments _ known unhidden _ inductionHypothesis =>
      have found := lookup_of_mem distinct known
      rw [spelling, argumentSpellings_eq_map, Spelling.applied]
      split
      · rename_i isEmpty
        obtain rfl : arguments = [] := by simpa using isEmpty
        exact lower_callee found (unhidden rfl)
      · rw [Node.rule, Program.lower, lowerAll_enclosed inductionHypothesis]
        exact lowerCall_of_lookup found

namespace Program

private theorem not_mem_of_nodup_append
    {found rest : List String} {name : String} (distinct : (found ++ name :: rest).Nodup) :
    name ∉ found := by
  have apart := (List.nodup_cons.mp (List.nodup_middle.mp distinct)).1
  exact fun member => apart (List.mem_append_left _ member)

private theorem parameterNodes_node (function : Function) :
    parameterNodes function.node =
      (function.parameters.map (.unplaced .identifier)).map .leaf :=
  parameterNodes_functionDef

private theorem signaturesFrom_nodes
    {functions : List Function} {found : Signatures}
    (distinct : (found.map (·.1) ++ functions.map Function.name).Nodup) :
    signaturesFrom path found (functions.map Function.node) =
      .ok (found ++ functions.map fun function => (function.name, function.arity)) := by
  induction functions generalizing found with
  | nil => simp [signaturesFrom]
  | cons function rest inductionHypothesis =>
      have fresh : ¬ (found.lookup function.name).isSome = true :=
        mt isSome_lookup_iff.mp (not_mem_of_nodup_append distinct)
      have arity : (parameterNodes function.node).length = function.arity := by
        simp [parameterNodes_node, Function.arity]
      rw [List.map_cons, List.append_cons] at distinct
      rw [List.map_cons, List.map_cons, List.append_cons, signaturesFrom, arity]
      refine (if_neg fresh).trans (inductionHypothesis ?_)
      rwa [List.map_append]

private theorem parametersFrom_leaves
    {names found : List String} (distinct : (found ++ names).Nodup) :
    parametersFrom path found ((names.map (.unplaced .identifier)).map .leaf) =
      .ok (found ++ names) := by
  induction names generalizing found with
  | nil => simp [parametersFrom]
  | cons name rest inductionHypothesis =>
      have fresh : ¬ found.contains name = true :=
        mt List.contains_iff_mem.mp (not_mem_of_nodup_append distinct)
      rw [List.append_cons] at distinct ⊢
      rw [List.map_cons, List.map_cons, parametersFrom]
      exact (if_neg fresh).trans (inductionHypothesis distinct)

/-- The definition of a function is lowered to the function. -/
theorem lowerFunction_node
    (distinct : (signatures.map (·.1)).Nodup) {function : Function}
    (parameters : function.parameters.Nodup)
    (writable : function.body.Writable signatures function.parameters) :
    lowerFunction path signatures function.node = .ok function := by
  have found : parametersFrom path [] (parameterNodes function.node) = .ok function.parameters := by
    rw [parameterNodes_node]
    exact parametersFrom_leaves parameters
  rw [lowerFunction]
  apply bind_eq_of_ok found
  apply bind_eq_of_ok lastChild_functionDef
  exact bind_eq_of_ok (writable.lower distinct) rfl

private theorem lowerFunctions_nodes
    {functions : List Function}
    (lowered : ∀ function ∈ functions, lowerFunction path signatures function.node = .ok function) :
    lowerFunctions path signatures (functions.map Function.node) = .ok functions := by
  induction functions with
  | nil => rfl
  | cons function rest inductionHypothesis =>
      rw [List.forall_mem_cons] at lowered
      rw [List.map_cons, lowerFunctions]
      exact bind_eq_of_ok lowered.1 (bind_eq_of_ok (inductionHypothesis lowered.2) rfl)

/-- Definitions are passed over where statements are lowered. -/
theorem lowerStatements_nodes
    (declared : List String) (functions : List Function) (rest : List Node) :
    lowerStatements path signatures declared (functions.map Function.node ++ rest) =
      lowerStatements path signatures declared rest := by
  induction functions with
  | nil => rfl
  | cons function others inductionHypothesis => exact inductionHypothesis

/-- Statements are lowered from their nodes if the values are, each behind what is declared
before it. -/
theorem lowerStatements_of_values
    {statements : List Statement} {declared : List String}
    (distinct : (declared ++ statements.filterMap Statement.declared?).Nodup)
    (apart : ∀ name ∈ statements.filterMap Statement.declared?, name ∉ signatures.map (·.1))
    (lowered : ∀ before statement behind, statements = before ++ statement :: behind →
      lower path signatures (declared ++ before.filterMap Statement.declared?)
        statement.value.spelling.2 = .ok statement.value) :
    lowerStatements path signatures declared (statements.map Statement.node) = .ok statements := by
  induction statements generalizing declared with
  | nil => rfl
  | cons statement rest inductionHypothesis =>
      have first := lowered [] statement rest rfl
      rw [List.filterMap_nil, List.append_nil] at first
      cases statement with
      | declaration name value =>
          rw [List.filterMap_cons_some (Statement.declared?_declaration name value)]
            at distinct apart
          have fresh : ¬ declared.contains name = true :=
            mt List.contains_iff_mem.mp (not_mem_of_nodup_append distinct)
          have notFunction : ¬ (signatures.lookup name).isSome = true :=
            mt isSome_lookup_iff.mp (apart name (.head _))
          have others : lowerStatements path signatures (declared ++ [name])
              (rest.map Statement.node) = .ok rest := by
            apply inductionHypothesis
            · rwa [List.append_cons] at distinct
            · exact fun other member => apart other (.tail _ member)
            · intro before statement behind split
              have later := lowered (.declaration name value :: before) statement behind
                (by rw [split, List.cons_append])
              rwa [List.filterMap_cons_some (Statement.declared?_declaration name value),
                List.append_cons] at later
          rw [List.map_cons, lowerStatements]
          refine (if_neg notFunction).trans ((if_neg fresh).trans ?_)
          exact bind_eq_of_ok rfl (bind_eq_of_ok first (bind_eq_of_ok others rfl))
      | output value =>
          rw [List.filterMap_cons_none (Statement.declared?_output value)] at distinct apart
          have others : lowerStatements path signatures declared (rest.map Statement.node) =
              .ok rest := by
            apply inductionHypothesis distinct apart
            intro before statement behind split
            exact lowered (.output value :: before) statement behind
              (by rw [split, List.cons_append])
          rw [List.map_cons, lowerStatements]
          exact bind_eq_of_ok rfl (bind_eq_of_ok first (bind_eq_of_ok others rfl))

variable {program : Program}

private theorem statementBodies_of_nodes (bodies : List Node) :
    statementBodies (bodies.map fun body => .rule .statement [body]) = .ok bodies := by
  induction bodies with
  | nil => rfl
  | cons body rest inductionHypothesis =>
      rw [List.map_cons, statementBodies]
      exact bind_eq_of_ok rfl (bind_eq_of_ok inductionHypothesis rfl)

def nodes (program : Program) : List Node :=
  program.functions.map Function.node ++ program.statements.map Statement.node

private theorem statements_root (program : Program) :
    program.root.statements = program.nodes.map fun body => .rule .statement [body] := by
  have spellings : program.spellings.map (·.2) =
      program.nodes.map fun body => .rule .statement [body] := by
    simp [Program.spellings, nodes, Function.spelling, Statement.spelling, Function.comp_def]
  rw [root, spellings]
  apply statements_program _ rfl
  exact List.forall_mem_map.mpr fun body _ => List.mem_singleton_self _

private theorem definitions_nodes (program : Program) :
    program.nodes.filter (·.symbol == .functionDef) = program.functions.map Function.node := by
  have functions : (program.functions.map Function.node).filter (·.symbol == .functionDef) =
      program.functions.map Function.node :=
    List.filter_eq_self.mpr (List.forall_mem_map.mpr fun _ _ => rfl)
  have statements : (program.statements.map Statement.node).filter (·.symbol == .functionDef) =
      [] := by
    refine List.filter_eq_nil_iff.mpr (List.forall_mem_map.mpr fun statement _ => ?_)
    cases statement <;> simp [Statement.node, Node.rule, Node.symbol]
  rw [nodes, List.filter_append, functions, statements, List.append_nil]

/-- The tree of a program that can be written is lowered to the program. -/
theorem Writable.ofNode_root (writable : program.Writable) (path : Option String) :
    ofNode path program.root = .ok program := by
  have distinct : (program.signatures.map (·.1)).Nodup := by
    rw [map_fst_signatures]
    exact writable.valid.functions
  have signed : signaturesFrom path [] (program.functions.map Function.node) =
      .ok program.signatures :=
    signaturesFrom_nodes writable.valid.functions
  have functions : lowerFunctions path program.signatures (program.functions.map Function.node) =
      .ok program.functions :=
    lowerFunctions_nodes fun function member =>
      lowerFunction_node distinct (writable.valid.parameters function member) (writable.body member)
  have statements : lowerStatements path program.signatures [] program.nodes =
      .ok program.statements := by
    rw [nodes, lowerStatements_nodes]
    apply lowerStatements_of_values writable.valid.declarations
    · rw [map_fst_signatures]
      exact writable.valid.disjoint
    · exact fun before statement behind split => (writable.value split).lower distinct
  rw [ofNode, statements_root]
  apply bind_eq_of_ok (statementBodies_of_nodes program.nodes)
  rw [definitions_nodes]
  exact bind_eq_of_ok signed (bind_eq_of_ok functions (bind_eq_of_ok statements rfl))

end Program

end RomanScript
