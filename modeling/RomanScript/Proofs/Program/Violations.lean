import RomanScript.Proofs.Compilation
import RomanScript.Proofs.Program.Lowered

/-!
# All violations, and the first one

The rules for names that a program breaks, listed in the order in which they are to be reported:
functions that are defined again, then the definitions one by one, then the main text. Lowering
gives a program exactly if the list is empty, and otherwise reports its first entry.
-/

namespace RomanScript.Program

/-- A rule that is broken, and the name that breaks it. -/
structure Violation where
  problem : Problem
  culprit : Node

def Violation.diagnostic (path : Option String) (violation : Violation) : Diagnostic :=
  ⟨violation.problem, violation.culprit.line, violation.culprit.column, path⟩

section Expressions

variable (signatures : Signatures) (scope : List String)

/-- An unknown callee comes before the violations in its arguments, a wrong number of arguments
after them. -/
def violationsOfCall (callee : Node) (arguments : List Violation) (count : Nat) :
    List Violation :=
  match signatures.lookup callee.text with
  | none => ⟨.functionUndefined callee.text, callee⟩ :: arguments
  | some arity =>
    arguments ++
      if count = arity then [] else [⟨.arityMismatch callee.text arity count, callee⟩]

/-- A name by itself is looked for in the scope, and then among the functions without
parameters. -/
def violationsOfName (name : Node) : List Violation :=
  if name.text ∈ scope then []
  else match signatures.lookup name.text with
    | none => [⟨.variableUndefined name.text, name⟩]
    | some 0 => []
    | some (more + 1) => [⟨.arityMismatch name.text (more + 1) 0, name⟩]

mutual

/-- The violations in an expression, from left to right. -/
def violations : Node → List Violation
  | .leaf token =>
    if token.symbol = .identifier then violationsOfName signatures scope (.leaf token) else []
  | .branch .call _ _ _ _ (callee :: arguments) =>
    violationsOfCall signatures callee (violationsOfAll arguments) arguments.length
  | .branch _ _ _ _ _ children => violationsOfAll children

def violationsOfAll : List Node → List Violation
  | [] => []
  | node :: rest => violations node ++ violationsOfAll rest

end

end Expressions

/-- The names that have been seen before, or stand among the names in front of them. -/
def repeated (seen : List String) : List Node → List Node
  | [] => []
  | name :: rest =>
    if name.text ∈ seen then name :: repeated seen rest
    else repeated (seen ++ [name.text]) rest

def signature? (definition : Node) : Option (String × Nat) :=
  (nameOf? definition).map fun name => (name.text, (parametersOf definition).length)

/-- The repeated parameters of a definition come before the violations in its body, which sees the
parameters alone. -/
def violationsOfDefinition (signatures : Signatures) (definition : Node) : List Violation :=
  (repeated [] (parametersOf definition)).map
      (fun parameter => ⟨.parameterRepeated parameter.text, parameter⟩) ++
    definition.children.getLast?.toList.flatMap
      (violations signatures ((parametersOf definition).map Node.text))

/-- A name to be declared must not be that of a function, nor one declared before. -/
def violationsOfDeclared (signatures : Signatures) (declared : List String) (name : Node) :
    List Violation :=
  if name.text ∈ signatures.map (·.1) then [⟨.functionRedefined name.text, name⟩]
  else if name.text ∈ declared then [⟨.variableRedefined name.text, name⟩]
  else []

/-- The violations in the main text, where every statement sees the variables declared before
it. -/
def violationsOfStatements (signatures : Signatures) : List String → List Node → List Violation
  | _, [] => []
  | declared, .branch .variableDecl _ _ _ _ [_, name, _, value] :: rest =>
    violationsOfDeclared signatures declared name ++ (violations signatures declared value ++
      violationsOfStatements signatures (declared ++ [name.text]) rest)
  | declared, .branch .outputStmt _ _ _ _ [_, value] :: rest =>
    violations signatures declared value ++ violationsOfStatements signatures declared rest
  | declared, _ :: rest => violationsOfStatements signatures declared rest

/-- The violations in a program: functions defined again, then the definitions in their order, then
the main text. -/
def violationsOfProgram (root : Node) : List Violation :=
  let definitions := (sentencesOf root).filter (·.symbol == .functionDef)
  let signatures := definitions.filterMap signature?
  (repeated [] (definitions.filterMap nameOf?)).map
      (fun name => ⟨.functionRedefined name.text, name⟩) ++
    (definitions.flatMap (violationsOfDefinition signatures) ++
      violationsOfStatements signatures [] (sentencesOf root))

/-! ## Reports -/

/-- A value of some kind if there are no violations, and otherwise the diagnostic of the first. -/
inductive Reports {α : Type} (path : Option String) (kind : α → Prop) :
    List Violation → Except Failure α → Prop
  | value {value : α} : kind value → Reports path kind [] (.ok value)
  | first {violation : Violation} {rest : List Violation} :
      Reports path kind (violation :: rest) (.error (.diagnostic (violation.diagnostic path)))

namespace Reports

variable {α β : Type} {path : Option String} {kind : α → Prop} {kind' : β → Prop}
    {before behind : List Violation}

/-- What is lowered first is reported first. -/
theorem bind
    {first : Except Failure α} {next : α → Except Failure β}
    (begun : Reports path kind before first)
    (continued : ∀ value, kind value → Reports path kind' behind (next value)) :
    Reports path kind' (before ++ behind) (first >>= next) := by
  cases begun with
  | value isKind => exact continued _ isKind
  | first => exact .first

private theorem map
    {result : Except Failure α} {make : α → β} (reported : Reports path kind before result)
    (kept : ∀ value, kind value → kind' (make value)) :
    Reports path kind' before (result >>= fun value => pure (make value)) := by
  cases reported with
  | value isKind => exact .value (kept _ isKind)
  | first => exact .first

private theorem given
    {value : α} {next : α → Except Failure β} (continued : Reports path kind' behind (next value)) :
    Reports path kind' behind ((.ok value : Except Failure α) >>= next) :=
  continued

end Reports

variable {path : Option String} {signatures : Signatures} {scope : List String}
    {names : List Token}

private theorem reports_lowerCall
    {callee : Node} {arguments : Except Failure (List Expression)} {before : List Violation}
    {count : Nat} (reported : Reports path (fun values => values.length = count) before arguments) :
    Reports path (fun _ => True) (violationsOfCall signatures callee before count)
      (lowerCall path signatures callee arguments) := by
  unfold violationsOfCall lowerCall
  cases known : signatures.lookup callee.text with
  | none => exact .first
  | some arity =>
      apply reported.bind
      intro values length
      by_cases same : count = arity
      · simp only [length, same, if_true]
        exact .value trivial
      · simp only [length, same, if_false]
        exact .first

private theorem reports_lowerName (name : Node) :
    Reports path (fun _ => True) (violationsOfName signatures scope name)
      (lowerName path signatures scope name) := by
  unfold violationsOfName lowerName
  by_cases inScope : name.text ∈ scope
  · simp only [inScope, List.contains_iff_mem, if_true]
    exact .value trivial
  · have called : Reports path (fun _ => True) (violationsOfCall signatures name [] 0)
        (lowerCall path signatures name (.ok [])) := reports_lowerCall (.value rfl)
    cases known : signatures.lookup name.text with
    | none =>
        simp [inScope]
        exact .first
    | some arity =>
        cases arity <;> simpa [inScope, violationsOfCall, known] using called

private theorem reports_lower_leaf
    {token : Token} (simple : token.symbol ∈ Node.simple) (legible : token.Legible) :
    Reports path (fun _ => True) (violations signatures scope (.leaf token))
      (lower path signatures scope (.leaf token)) := by
  rw [lower, violations]
  simp only [Node.simple, List.mem_cons, List.not_mem_nil, or_false] at simple
  rcases simple with isNumeral | isName | isInput
  · have readable := legible isNumeral
    rw [← Numeral.isSome_value?, Option.isSome_iff_exists] at readable
    obtain ⟨value, isValue⟩ := readable
    simp only [lowerSimple, Node.symbol, Node.text, isNumeral, isValue]
    exact .value trivial
  · simp only [lowerSimple, Node.symbol, isName, if_true]
    exact reports_lowerName (.leaf token)
  · simp only [lowerSimple, Node.symbol, isInput]
    exact .value trivial
  all_goals simp

/-- As many values as nodes, or the first violation in one of them. -/
theorem reports_lowerAll
    {nodes : List Node}
    (reported : ∀ node ∈ nodes, Reports path (fun _ => True) (violations signatures scope node)
      (lower path signatures scope node)) :
    Reports path (fun values => values.length = nodes.length)
      (violationsOfAll signatures scope nodes) (lowerAll path signatures scope nodes) := by
  induction nodes with
  | nil => exact .value rfl
  | cons node rest inductionHypothesis =>
      rw [List.forall_mem_cons] at reported
      rw [lowerAll, violationsOfAll]
      apply reported.1.bind
      intro first _
      apply (inductionHypothesis reported.2).map
      intro others length
      simpa using length

/-- A token that is no name breaks no rule. -/
theorem violations_leaf_of_ne {token : Token} (notName : token.symbol ≠ .identifier) :
    violations signatures scope (.leaf token) = [] := by
  rw [violations, if_neg notName]

private theorem exists_operatorOf
    {operator : Token} (isOperator : operator.symbol ∈ [.plus, .minus, .times, .divide]) :
    operator.symbol ≠ .identifier ∧
      ∃ operation, operatorOf (.leaf operator) = .ok operation := by
  simp only [List.mem_cons, List.not_mem_nil, or_false] at isOperator
  rcases isOperator with symbol | symbol | symbol | symbol <;>
    simp [operatorOf, Node.symbol, symbol]

/-- The operator between two operands breaks no rule. -/
theorem reports_binary
    {left right : Node} {operator : Token}
    (isOperator : operator.symbol ∈ [.plus, .minus, .times, .divide])
    (reportedLeft : Reports path (fun _ => True) (violations signatures scope left)
      (lower path signatures scope left))
    (reportedRight : Reports path (fun _ => True) (violations signatures scope right)
      (lower path signatures scope right)) :
    Reports path (fun _ => True) (violationsOfAll signatures scope [left, .leaf operator, right])
      (do
        let operator ← operatorOf (.leaf operator)
        let left ← lower path signatures scope left
        let right ← lower path signatures scope right
        return Expression.binary operator left right) := by
  obtain ⟨notName, operation, isOperation⟩ := exists_operatorOf isOperator
  rw [isOperation]
  simp only [violationsOfAll, violations_leaf_of_ne notName, List.nil_append, List.append_nil]
  apply reportedLeft.bind
  intro first _
  exact reportedRight.map fun _ _ => trivial

/-- An expression that the rules of the grammar make is lowered, or its first violation is
reported. -/
theorem reports_lower
    {node : Node} (formed : Formed names node) (legible : ∀ token ∈ names, token.Legible) :
    Reports path (fun _ => True) (violations signatures scope node)
      (lower path signatures scope node) := by
  induction formed using Formed.induction with
  | leaf token _ member simple => exact reports_lower_leaf simple (legible token member)
  | binary symbol left operator right _ _ _ isBinary isOperator reportedLeft reportedRight =>
      rcases isBinary with rfl | rfl <;>
      · rw [Node.rule, lower, violations]
        · exact reports_binary isOperator reportedLeft reportedRight
        · simp
  | signed sign operand _ _ isSign reported =>
      obtain ⟨notName, operation, isOperation⟩ := exists_operatorOf isSign
      rw [Node.rule, lower, violations, isOperation]
      · simp only [violationsOfAll, violations_leaf_of_ne notName, List.nil_append,
          List.append_nil]
        exact reported.map fun _ _ => trivial
      · simp
  | call callee arguments _ _ _ _ reported =>
      rw [Node.rule, lower, violations]
      apply reports_lowerCall
      exact reports_lowerAll reported
  | conditional keyword condition consequence alternative _ _ _ _ isKeyword first second third =>
      have notName : keyword.symbol ≠ .identifier := by simp [isKeyword]
      rw [Node.rule, lower, violations]
      · simp only [violationsOfAll, violations_leaf_of_ne notName, List.nil_append,
          List.append_nil]
        apply first.bind
        intro _ _
        apply second.bind
        intro _ _
        apply third.map
        simp
      · simp
  | group opening inner closing _ _ isOpening isClosing reported =>
      have notName : opening.symbol ≠ .identifier := by simp [isOpening]
      have notName' : closing.symbol ≠ .identifier := by simp [isClosing]
      rw [Node.rule, lower, violations]
      · simpa only [violationsOfAll, violations_leaf_of_ne notName, violations_leaf_of_ne notName',
          List.nil_append, List.append_nil] using reported
      · simp

/-- The signatures that are found are those of all definitions, unless a function is defined
again. -/
theorem reports_signaturesFrom
    {definitions : List Node} (found : Signatures)
    (sentences : ∀ definition ∈ definitions,
      Sentence names definition ∧ definition.symbol = .functionDef) :
    Reports path (fun signatures => signatures = found ++ definitions.filterMap signature?)
      ((repeated (found.map (·.1)) (definitions.filterMap nameOf?)).map fun name =>
        ⟨.functionRedefined name.text, name⟩)
      (signaturesFrom path found definitions) := by
  induction definitions generalizing found with
  | nil => exact .value (by simp)
  | cons definition rest inductionHypothesis =>
      obtain ⟨⟨sentence, isDefinition⟩, others⟩ := List.forall_mem_cons.mp sentences
      obtain ⟨name, parameters, body, outline⟩ := exists_outline sentence isDefinition
      have isSignature : signature? definition = some (name.text, parameters.length) := by
        simp [signature?, outline.isName, outline.areParameters]
      rw [signaturesFrom, childAt_eq_ok.mpr outline.isName, List.filterMap_cons_some outline.isName,
        List.filterMap_cons_some isSignature, repeated, outline.stand]
      apply Reports.given
      by_cases known : name.text ∈ found.map (·.1)
      · simp only [known, isSome_lookup_iff.mpr known, if_true]
        exact .first
      · have fresh := mt isSome_lookup_iff.mp known
        simp only [known, fresh, if_false]
        simpa using inductionHypothesis (found ++ [(name.text, parameters.length)]) others

private theorem reports_parametersFrom
    (parameters : List Node) (found : List String) :
    Reports path (fun all => all = found ++ parameters.map Node.text)
      ((repeated found parameters).map fun parameter =>
        ⟨.parameterRepeated parameter.text, parameter⟩)
      (parametersFrom path found parameters) := by
  induction parameters generalizing found with
  | nil => exact .value (by simp)
  | cons parameter rest inductionHypothesis =>
      rw [parametersFrom, repeated]
      by_cases known : parameter.text ∈ found
      · simp only [known, List.contains_iff_mem, if_true]
        exact .first
      · simp only [known, List.contains_iff_mem, if_false]
        simpa using inductionHypothesis (found ++ [parameter.text])

section Legible

variable (legible : ∀ token ∈ names, token.Legible)

include legible

private theorem reports_lowerFunction
    {definition : Node} (sentence : Sentence names definition)
    (isDefinition : definition.symbol = .functionDef) :
    Reports path (fun _ => True) (violationsOfDefinition signatures definition)
      (lowerFunction path signatures definition) := by
  obtain ⟨name, parameters, body, outline⟩ := exists_outline sentence isDefinition
  rw [lowerFunction, violationsOfDefinition, outline.areParameters, outline.stand,
    lastChild_eq_ok.mpr outline.isBody, childAt_eq_ok.mpr outline.isName, outline.isBody]
  apply (reports_parametersFrom parameters []).bind
  intro scope isScope
  rw [isScope, List.nil_append]
  apply Reports.given
  have reported : Reports path _ (violations signatures (parameters.map Node.text) body) _ :=
    reports_lower outline.formed legible
  rw [Option.toList_some, List.flatMap_singleton]
  exact reported.map fun _ _ => trivial

private theorem reports_lowerFunctions
    {definitions : List Node} (sentences : ∀ definition ∈ definitions,
      Sentence names definition ∧ definition.symbol = .functionDef) :
    Reports path (fun _ => True) (definitions.flatMap (violationsOfDefinition signatures))
      (lowerFunctions path signatures definitions) := by
  induction definitions with
  | nil => exact .value trivial
  | cons definition rest inductionHypothesis =>
      obtain ⟨⟨sentence, isDefinition⟩, others⟩ := List.forall_mem_cons.mp sentences
      rw [lowerFunctions, List.flatMap_cons]
      apply (reports_lowerFunction legible sentence isDefinition).bind
      intro first _
      exact (inductionHypothesis others).map fun _ _ => trivial

private theorem reports_lowerStatements
    {bodies : List Node} (declared : List String)
    (sentences : ∀ body ∈ bodies, Sentence names body) :
    Reports path (fun _ => True) (violationsOfStatements signatures declared bodies)
      (lowerStatements path signatures declared bodies) := by
  induction bodies generalizing declared with
  | nil => exact .value trivial
  | cons body rest inductionHypothesis =>
      obtain ⟨sentence, others⟩ := List.forall_mem_cons.mp sentences
      rw [lowerStatements]
      cases sentence with
      | functionDef => exact inductionHypothesis declared others
      | @variableDecl _ name _ value _ _ formed =>
          have reported : Reports path _ (violations signatures declared value) _ :=
            reports_lower formed legible
          rw [Node.rule, violationsOfStatements, violationsOfDeclared]
          apply Reports.given
          by_cases isFunction : name.text ∈ signatures.map (·.1)
          · simp only [Node.text, isFunction, isSome_lookup_iff.mpr isFunction, if_true]
            exact .first
          · have notFound := mt isSome_lookup_iff.mp isFunction
            simp only [Node.text, isFunction, notFound, if_false]
            by_cases known : name.text ∈ declared
            · simp only [known, List.contains_iff_mem, if_true]
              exact .first
            · simp only [known, List.contains_iff_mem, if_false, List.nil_append]
              apply Reports.given
              apply reported.bind
              intro _ _
              exact (inductionHypothesis _ others).map fun _ _ => trivial
      | @outputStmt _ value formed =>
          have reported : Reports path _ (violations signatures declared value) _ :=
            reports_lower formed legible
          rw [Node.rule, violationsOfStatements]
          apply Reports.given
          apply reported.bind
          intro _ _
          exact (inductionHypothesis declared others).map fun _ _ => trivial

end Legible

/-- The tree of a program is lowered, or its first violation is reported. -/
theorem reports_ofNode
    {root : Node} (regular : root.Regular) (branch : root.IsBranch [.program])
    (legible : ∀ token ∈ root.leaves, token.Legible) :
    Reports path (fun _ => True) (violationsOfProgram root) (ofNode path root) := by
  obtain ⟨bodies, isBodies, sentences⟩ := exists_bodies regular branch
  have definitions := definitions_of_sentences sentences
  rw [ofNode, violationsOfProgram, sentencesOf_eq (forall₂_bodies_of_ok isBodies), isBodies]
  apply Reports.given
  apply (reports_signaturesFrom [] definitions).bind
  intro signatures isSignatures
  rw [isSignatures, List.nil_append]
  apply (reports_lowerFunctions legible definitions).bind
  intro functions _
  exact (reports_lowerStatements legible [] sentences).map fun _ _ => trivial

/-- A tree that was parsed from legible tokens is lowered exactly if it has no violations, and
otherwise the first of them is reported. -/
theorem ofTree_iff_violations
    {tokens : List Token} {path : Option String} {tree : Tree}
    (parsed : Tree.ofTokens tokens path = .ok tree) (legible : ∀ token ∈ tokens, token.Legible) :
    ((∃ program, ofTree tree = .ok program) ↔ violationsOfProgram tree.root = []) ∧
      ∀ first rest, violationsOfProgram tree.root = first :: rest →
        ofTree tree = .error (.diagnostic (first.diagnostic path)) := by
  obtain ⟨finished, _⟩ := Tree.exists_of_ofTokensUnder_ok parsed
  have parses := Tree.parsed_ofTokens finished path
  rw [parsed] at parses
  cases parses with
  | @tree root regular branch included =>
      have reported : Reports path _ (violationsOfProgram root) (ofTree ⟨root, path⟩) :=
        reports_ofNode regular branch fun token member => legible token (included member)
      generalize violationsOfProgram root = all at reported ⊢
      generalize ofTree ⟨root, path⟩ = result at reported ⊢
      cases reported with
      | value _ => simp
      | first => simp

/-- A function that is called with a variable too many, and again without any. -/
def wrongCalls : List Token :=
  [⟨.keyword .define, "Munus", 1, 0⟩, ⟨.identifier, "f", 1, 6⟩, ⟨.identifier, "n", 1, 8⟩,
    ⟨.equals, "=", 1, 10⟩, ⟨.identifier, "f", 1, 12⟩, ⟨.identifier, "n", 1, 14⟩,
    ⟨.identifier, "m", 1, 16⟩, ⟨.keyword .output, "Grafo", 2, 0⟩, ⟨.identifier, "f", 2, 6⟩,
    ⟨.endOfText, "", 2, 7⟩]

def wrongCallsDiagnostics : List Diagnostic :=
  [⟨.variableUndefined "m", 1, 16, none⟩, ⟨.arityMismatch "f" 1 2, 1, 12, none⟩,
    ⟨.arityMismatch "f" 1 0, 2, 6, none⟩]

theorem ofTree_iff_violations_wrongCalls :
    (∀ token ∈ wrongCalls, token.Legible) ∧
      ∃ tree, Tree.ofTokens wrongCalls none = .ok tree ∧
        (violationsOfProgram tree.root).map (Violation.diagnostic none) = wrongCallsDiagnostics ∧
          ofTree tree = .error (.diagnostic ⟨.variableUndefined "m", 1, 16, none⟩) := by
  have legible : ∀ token ∈ wrongCalls, token.Legible := by simp [wrongCalls, Token.Legible]
  have all : ((Tree.ofTokens wrongCalls none).toOption.map fun tree =>
      (violationsOfProgram tree.root).map (Violation.diagnostic none)) =
        some wrongCallsDiagnostics := by decide +kernel
  cases parsed : Tree.ofTokens wrongCalls none with
  | error failure => simp [parsed, Except.toOption] at all
  | ok tree =>
      rw [parsed] at all
      have listed := Option.some.inj all
      obtain ⟨first, rest, split, isFirst, _⟩ := List.map_eq_cons_iff.mp listed
      have reported := (ofTree_iff_violations parsed legible).2 first rest split
      rw [isFirst] at reported
      exact ⟨legible, tree, rfl, listed, reported⟩

end RomanScript.Program
