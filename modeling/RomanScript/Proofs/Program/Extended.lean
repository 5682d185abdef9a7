import RomanScript.Proofs.Compilation
import RomanScript.Proofs.Program.Interleaved
import RomanScript.Proofs.Program.Valid

/-!
# One function more

A function with a new name changes nothing about the rest of a program: every name there means what
it meant before. So either the program has this one function more, or there is something wrong
inside its definition.
-/

namespace RomanScript.Program

variable {path : Option String} {smaller larger : Signatures} {scope : List String}

/-- The functions that are known are known with as many parameters beside others. -/
def Kept (smaller larger : Signatures) : Prop :=
  ∀ name arity, smaller.lookup name = some arity → larger.lookup name = some arity

private theorem lowerName_kept
    (kept : Kept smaller larger) {name : Node} {expression : Expression}
    (lowered : lowerName path smaller scope name = .ok expression) :
    lowerName path larger scope name = .ok expression := by
  unfold lowerName at lowered ⊢
  by_cases inScope : scope.contains name.text = true
  · rwa [if_pos inScope] at lowered ⊢
  · rw [if_neg inScope] at lowered ⊢
    split_ifs at lowered with isFunction
    · obtain ⟨arity, known⟩ := Option.isSome_iff_exists.mp isFunction
      have isFunction' : (larger.lookup name.text).isSome = true := by rw [kept _ _ known]; rfl
      obtain ⟨_, ⟨⟩, known, rfl⟩ := exists_of_lowerCall lowered
      rw [if_pos isFunction', lowerCall_of_lookup (kept _ _ known)]
    · cases lowered

private theorem lowerSimple_kept
    (kept : Kept smaller larger) {node : Node} {expression : Expression}
    (lowered : lowerSimple path smaller scope node = .ok expression) :
    lowerSimple path larger scope node = .ok expression := by
  unfold lowerSimple at lowered
  split at lowered
  · rename_i isNumeral
    simp only [lowerSimple, isNumeral]
    exact lowered
  · rename_i isInput
    simp only [lowerSimple, isInput]
    exact lowered
  · rename_i isName
    simp only [lowerSimple, isName]
    exact lowerName_kept kept lowered
  all_goals cases lowered

private theorem lower_and_lowerAll_kept (kept : Kept smaller larger) :
    (∀ node expression, lower path smaller scope node = .ok expression →
      lower path larger scope node = .ok expression) ∧
    ∀ nodes expressions, lowerAll path smaller scope nodes = .ok expressions →
      lowerAll path larger scope nodes = .ok expressions := by
  apply lowered_induction
  case binary =>
    intro _ _ _ _ _ _ _ _ _ _ _ isBinary isOperator keptLeft keptRight
    rcases isBinary with rfl | rfl <;>
    · rw [lower, isOperator, keptLeft, keptRight]
      rfl
  case signed =>
    intro _ _ _ _ _ _ _ _ isOperator keptOperand
    rw [lower, isOperator, keptOperand]
    rfl
  case group =>
    intro _ _ _ _ _ _ _ _ keptInner
    rw [lower, keptInner]
  case conditional =>
    intro _ _ _ _ _ _ _ _ _ _ _ keptCondition keptConsequence keptAlternative
    rw [lower, keptCondition, keptConsequence, keptAlternative]
    rfl
  case call =>
    intro _ _ _ _ _ _ _ known keptArguments
    rw [lower, keptArguments, lowerCall_of_lookup (kept _ _ known)]
  case simple =>
    intro node expression isSimple lowered
    rw [isSimple larger]
    exact lowerSimple_kept kept lowered
  case nil => rw [lowerAll]
  case cons =>
    intro _ _ _ _ keptFirst keptRest
    rw [lowerAll, keptFirst, keptRest]
    rfl

/-- An expression means beside more functions what it meant before. -/
theorem lower_kept
    (kept : Kept smaller larger) {node : Node} {expression : Expression}
    (lowered : lower path smaller scope node = .ok expression) :
    lower path larger scope node = .ok expression :=
  (lower_and_lowerAll_kept kept).1 node expression lowered

private theorem lowerFunctions_kept
    (kept : Kept smaller larger) {definitions : List Node} {functions : List Function}
    (lowered : lowerFunctions path smaller definitions = .ok functions) :
    lowerFunctions path larger definitions = .ok functions := by
  induction definitions generalizing functions with
  | nil => exact lowered
  | cons definition rest inductionHypothesis =>
      obtain ⟨first, isFirst, lowered⟩ := exists_of_bind_eq_ok lowered
      obtain ⟨others, areOthers, lowered⟩ := exists_of_bind_eq_ok lowered
      have isFirst' : lowerFunction path larger definition = .ok first := by
        obtain ⟨parameters, named, isFirst⟩ := exists_of_bind_eq_ok isFirst
        obtain ⟨bodyNode, isBody, isFirst⟩ := exists_of_bind_eq_ok isFirst
        obtain ⟨body, isLowered, isFirst⟩ := exists_of_bind_eq_ok isFirst
        rw [lowerFunction, named, isBody]
        change (lower path larger parameters bodyNode >>= _) = _
        rw [lower_kept kept isLowered]
        exact isFirst
      rw [lowerFunctions, isFirst', inductionHypothesis areOthers]
      exact lowered

/-- Every name but one stands for the same function, if for any. -/
def SameBut (name : String) (smaller larger : Signatures) : Prop :=
  ∀ other, other ≠ name → larger.lookup other = smaller.lookup other

private theorem SameBut.kept
    {name : String} (same : SameBut name smaller larger)
    (fresh : name ∉ smaller.map (·.1)) : Kept smaller larger := by
  intro other arity known
  have differs : other ≠ name := by
    rintro rfl
    exact fresh (List.mem_map_of_mem (mem_of_lookup known))
  rw [same other differs, known]

/-- The main text means what it meant before, unless it declares the name that is new. -/
theorem lowerStatements_kept
    {name : String} (same : SameBut name smaller larger) (kept : Kept smaller larger)
    {declared : List String} {sentences : List Node} {statements : List Statement}
    (lowered : lowerStatements path smaller declared sentences = .ok statements)
    (fresh : name ∉ statements.filterMap Statement.declared?) :
    lowerStatements path larger declared sentences = .ok statements := by
  induction sentences generalizing declared statements with
  | nil => exact lowered
  | cons sentence rest inductionHypothesis =>
      rw [lowerStatements] at lowered ⊢
      split at lowered
      · obtain ⟨nameNode, isName, lowered⟩ := exists_of_bind_eq_ok lowered
        obtain ⟨notFunction, lowered⟩ := of_ite_refuse lowered
        obtain ⟨notDeclared, lowered⟩ := of_ite_refuse lowered
        obtain ⟨valueNode, isValue, lowered⟩ := exists_of_bind_eq_ok lowered
        obtain ⟨value, isLowered, lowered⟩ := exists_of_bind_eq_ok lowered
        obtain ⟨others, areOthers, lowered⟩ := exists_of_bind_eq_ok lowered
        cases lowered
        rw [List.filterMap_cons_some (Statement.declared?_declaration _ _), List.mem_cons,
          not_or] at fresh
        rw [← same nameNode.text (Ne.symm fresh.1)] at notFunction
        rw [isName, ok_bind, if_neg notFunction, if_neg notDeclared, isValue, ok_bind,
          lower_kept kept isLowered, ok_bind, inductionHypothesis areOthers fresh.2]
        rfl
      · obtain ⟨valueNode, isValue, lowered⟩ := exists_of_bind_eq_ok lowered
        obtain ⟨value, isLowered, lowered⟩ := exists_of_bind_eq_ok lowered
        obtain ⟨others, areOthers, lowered⟩ := exists_of_bind_eq_ok lowered
        cases lowered
        rw [List.filterMap_cons_none (Statement.declared?_output _)] at fresh
        rw [isValue, ok_bind, lower_kept kept isLowered, ok_bind,
          inductionHypothesis areOthers fresh]
        rfl
      · exact inductionHypothesis lowered fresh

private theorem signaturesFrom_append (found : Signatures) (front back : List Node) :
    signaturesFrom path found (front ++ back) =
      (signaturesFrom path found front >>= fun more => signaturesFrom path more back) := by
  induction front generalizing found with
  | nil => rfl
  | cons definition rest inductionHypothesis =>
      rw [List.cons_append, signaturesFrom, signaturesFrom, bind_assoc]
      congr 1
      funext name
      split
      · rfl
      · exact inductionHypothesis _

private theorem lowerFunctions_append (front back : List Node) :
    lowerFunctions path smaller (front ++ back) = (do
      let first ← lowerFunctions path smaller front
      let others ← lowerFunctions path smaller back
      return first ++ others) := by
  induction front with
  | nil => simp [lowerFunctions]
  | cons definition rest inductionHypothesis =>
      simp only [List.cons_append, lowerFunctions, inductionHypothesis, bind_assoc, pure_bind]

private theorem subset_of_signaturesFrom
    {found signatures : Signatures} {definitions : List Node}
    (signed : signaturesFrom path found definitions = .ok signatures) : found ⊆ signatures := by
  induction definitions generalizing found with
  | nil =>
      cases signed
      exact List.Subset.refl _
  | cons definition rest inductionHypothesis =>
      rw [signaturesFrom] at signed
      obtain ⟨name, isName, signed⟩ := exists_of_bind_eq_ok signed
      obtain ⟨_, signed⟩ := of_ite_refuse signed
      exact List.Subset.trans (List.subset_append_left _ _) (inductionHypothesis signed)

/-- Definitions with other names are signed beside a new function as they were without it. -/
theorem exists_signaturesFrom_same
    {name : String} {found found' signatures : Signatures} {definitions : List Node}
    (same : SameBut name found found')
    (signed : signaturesFrom path found definitions = .ok signatures)
    (fresh : name ∉ signatures.map (·.1)) :
    ∃ signatures', signaturesFrom path found' definitions = .ok signatures' ∧
      SameBut name signatures signatures' := by
  induction definitions generalizing found found' with
  | nil =>
      cases signed
      exact ⟨found', rfl, same⟩
  | cons definition rest inductionHypothesis =>
      rw [signaturesFrom] at signed
      obtain ⟨nameNode, isName, signed⟩ := exists_of_bind_eq_ok signed
      obtain ⟨notFound, signed⟩ := of_ite_refuse signed
      have member := subset_of_signaturesFrom signed (List.mem_append_right _ (.head _))
      have differs : nameNode.text ≠ name := by
        rintro rfl
        exact fresh (List.mem_map_of_mem member)
      rw [← same nameNode.text differs] at notFound
      rw [signaturesFrom, isName, ok_bind, if_neg notFound]
      apply inductionHypothesis _ signed
      intro other differs
      rw [List.lookup_append, List.lookup_append, same other differs]

private theorem exists_signaturesFrom_insert
    {front back : List Node} {definition name : Node} {signatures : Signatures}
    (signed : signaturesFrom path [] (front ++ back) = .ok signatures)
    (isName : childAt definition 1 = .ok name) (fresh : name.text ∉ signatures.map (·.1)) :
    ∃ signatures', signaturesFrom path [] (front ++ definition :: back) = .ok signatures' ∧
      SameBut name.text signatures signatures' := by
  rw [signaturesFrom_append] at signed
  obtain ⟨more, areMore, signed⟩ := exists_of_bind_eq_ok signed
  have notFound : ¬ (more.lookup name.text).isSome = true := by
    rw [isSome_lookup_iff]
    exact fun member => fresh (List.map_subset _ (subset_of_signaturesFrom signed) member)
  rw [signaturesFrom_append, areMore, ok_bind, signaturesFrom, isName, ok_bind, if_neg notFound]
  refine exists_signaturesFrom_same (fun other differs => ?_) signed fresh
  have apart : (other == name.text) = false := by simpa using differs
  rw [List.lookup_append, List.lookup_cons, apart, List.lookup_nil, Option.or_none]

/-- What becomes of a program with a new definition is decided by that definition alone. -/
theorem exists_ofParts_insert
    {front back main : List Node} {definition name : Node} {program : Program}
    (lowered : ofParts path (front ++ back) main = .ok program)
    (isName : childAt definition 1 = .ok name)
    (freshFunction : name.text ∉ program.functions.map Function.name)
    (freshVariable : name.text ∉ program.statements.filterMap Statement.declared?) :
    ∃ signatures first others, program.functions = first ++ others ∧
      first.length = front.length ∧
      ofParts path (front ++ definition :: back) main = (do
        let function ← lowerFunction path signatures definition
        return ⟨first ++ function :: others, program.statements⟩) ∧
      ∀ function, lowerFunction path signatures definition = .ok function →
        signatures = Program.signatures ⟨first ++ function :: others, program.statements⟩ := by
  obtain ⟨smaller, signed, lowered⟩ := exists_of_bind_eq_ok lowered
  obtain ⟨functions, areFunctions, lowered⟩ := exists_of_bind_eq_ok lowered
  obtain ⟨statements, areStatements, lowered⟩ := exists_of_bind_eq_ok lowered
  cases lowered
  obtain ⟨_, added, split, signs⟩ := forall₂_signs_of_ok signed .nil
  have isMap := signatures_eq_map signs (forall₂_defines_of_ok areFunctions)
  have fresh : name.text ∉ smaller.map (·.1) := by
    rw [split, List.nil_append, isMap, List.map_map]
    exact freshFunction
  rw [lowerFunctions_append] at areFunctions
  obtain ⟨first, isFirst, areFunctions⟩ := exists_of_bind_eq_ok areFunctions
  obtain ⟨others, areOthers, areFunctions⟩ := exists_of_bind_eq_ok areFunctions
  cases areFunctions
  obtain ⟨larger, isLarger, same⟩ := exists_signaturesFrom_insert signed isName fresh
  have kept := same.kept fresh
  have areMore : lowerFunctions path larger (front ++ definition :: back) = (do
      let function ← lowerFunction path larger definition
      return first ++ function :: others) := by
    simp only [lowerFunctions_append, lowerFunctions, lowerFunctions_kept kept isFirst,
      lowerFunctions_kept kept areOthers, ok_bind, bind_assoc, pure_bind]
  refine ⟨larger, first, others, rfl, (forall₂_defines_of_ok isFirst).length_eq.symm, ?_, ?_⟩
  · simp only [ofParts, isLarger, areMore,
      lowerStatements_kept same kept areStatements freshVariable, ok_bind, bind_assoc, pure_bind]
  · intro function isFunction
    rw [isFunction, ok_bind] at areMore
    obtain ⟨_, added, split, signs⟩ := forall₂_signs_of_ok isLarger .nil
    rw [split, List.nil_append]
    exact signatures_eq_map signs (forall₂_defines_of_ok areMore)

/-! ## Insertion into a tree -/

/-- A tree with one more statement among the children of its root. -/
structure Inserts (before behind : List Node) (statement : Node) (tree extended : Tree) : Prop where
  path : extended.path = tree.path
  children : tree.root.children = before ++ behind
  inserted : extended.root.children = before ++ statement :: behind

/-- The statement of a definition, as it stands in some parsed tree. -/
structure ParsedDefinition (statement definition : Node) : Prop where
  parsed : ∃ tokens path tree, Tree.ofTokens tokens path = .ok tree ∧ statement ∈ tree.statements
  first : statement.children.head? = some definition
  isDefinition : definition.symbol = .functionDef

variable {statement definition : Node}

private theorem ParsedDefinition.isStatement (parsed : ParsedDefinition statement definition) :
    statement.symbol = .statement := by
  obtain ⟨tokens, path, tree, _, member⟩ := parsed.parsed
  simpa using (List.mem_filter.mp member).2

/-- The rules of the grammar have made a parsed definition of its own tokens. -/
theorem ParsedDefinition.sentence (parsed : ParsedDefinition statement definition) :
    Sentence definition.leaves definition := by
  have isStatement := parsed.isStatement
  obtain ⟨⟨tokens, path, tree, accepted, member⟩, first, _⟩ := parsed
  obtain ⟨finished, _⟩ := Tree.exists_of_ofTokensUnder_ok accepted
  have parses := Tree.parsed_ofTokens finished path
  rw [accepted] at parses
  cases parses with
  | @tree root regular branch included =>
      have child : statement ∈ root.children := (List.mem_filter.mp member).1
      have made : statement.Regular := by
        cases regular with
        | leaf token => exact branch.elim
        | rule made regular => exact regular statement child
      cases made with
      | leaf token => cases first
      | @rule symbol children made regular =>
          cases made with
          | statement branch =>
              cases first
              exact sentence_of_regular (regular definition (.head _)) branch
                (List.Subset.refl _)
          | _ => cases isStatement

/-- A parsed definition is lowered beside any functions, or there is a wrong name in it. -/
theorem ParsedDefinition.judged
    (parsed : ParsedDefinition statement definition)
    (legible : ∀ token ∈ definition.leaves, token.Legible) :
    Judged path definition.leaves (lowerFunction path larger definition) := by
  have judged : Judged path definition.leaves (lowerFunctions path larger [definition]) :=
    judged_lowerFunctions legible
      (List.forall_mem_singleton.mpr ⟨parsed.sentence, parsed.isDefinition⟩)
  rw [lowerFunctions] at judged
  generalize lowerFunction path larger definition = result at judged
  cases result with
  | ok function => exact .value function
  | error failure =>
      cases judged with
      | problem member identifier concerns => exact .problem member identifier concerns

private theorem filled_of_ofNode
    {root : Node} {program : Program} (lowered : ofNode path root = .ok program) :
    Filled root := by
  obtain ⟨bodies, comes⟩ := comes_of_ok lowered
  have firsts : List.Forall₂ (fun statement body =>
      statement.children ≠ [] ∧ statement.children[0]? = some body) root.statements bodies := by
    apply comes.first.imp
    intro statement body first
    refine ⟨?_, first⟩
    intro isEmpty
    rw [isEmpty] at first
    cases first
  exact ((List.forall₂_and_left _ _).mp firsts).1

section Inserts

variable {before behind : List Node} {tree extended : Tree}
    (inserts : Inserts before behind statement tree extended)
    (parsed : ParsedDefinition statement definition)

include inserts parsed

private theorem Inserts.filled (filled : Filled tree.root) : Filled extended.root := by
  unfold Filled Node.statements at filled ⊢
  rw [inserts.children, List.filter_append, List.forall_mem_append] at filled
  rw [inserts.inserted, List.filter_append, List.forall_mem_append,
    List.filter_cons_of_pos (by simp [parsed.isStatement]), List.forall_mem_cons]
  refine ⟨filled.1, ?_, filled.2⟩
  intro isEmpty
  have first := parsed.first
  rw [isEmpty] at first
  cases first

private theorem Inserts.sentencesAmong_eq :
    sentencesAmong extended.root.children =
      sentencesAmong before ++ definition :: sentencesAmong behind := by
  rw [inserts.inserted, sentencesAmong_append]
  simp [sentencesAmong, parsed.isStatement, parsed.first]

private theorem Inserts.definitionsAmong_eq :
    definitionsAmong extended.root.children =
      definitionsAmong before ++ definition :: definitionsAmong behind := by
  rw [definitionsAmong, inserts.sentencesAmong_eq parsed, List.filter_append,
    List.filter_cons_of_pos (by simp [parsed.isDefinition])]
  rfl

private theorem Inserts.mainAmong_eq :
    mainAmong extended.root.children = mainAmong tree.root.children := by
  rw [mainAmong, inserts.sentencesAmong_eq parsed, List.filter_append,
    List.filter_cons_of_neg (by simp [isMain, parsed.isDefinition]), inserts.children,
    mainAmong_append]
  rfl

end Inserts

/-- Where a definition with a new name is put into a tree that has a program, the program has the
function of that definition more, at its place among the others, or the name of an identifier inside
the definition is reported. The numerals of the definition are to be legible, as they are when it
was parsed from a text. -/
theorem ofTree_insert_definition
    {tree extended : Tree} {program : Program} {before behind : List Node} {name : Node}
    (lowered : ofTree tree = .ok program)
    (inserts : Inserts before behind statement tree extended)
    (parsed : ParsedDefinition statement definition)
    (legible : ∀ token ∈ definition.leaves, token.Legible)
    (isName : nameOf? definition = some name)
    (freshFunction : name.text ∉ program.functions.map Function.name)
    (freshVariable : name.text ∉ program.statements.filterMap Statement.declared?) :
    (∃ first function others, program.functions = first ++ others ∧
      first.length = (definitionsAmong before).length ∧
      ofTree extended = .ok ⟨first ++ function :: others, program.statements⟩ ∧
      Defines tree.path (signatures ⟨first ++ function :: others, program.statements⟩) definition
        function) ∨
    ∃ token ∈ definition.leaves, ∃ problem : Problem, token.symbol = .identifier ∧
      problem.Concerns token.text ∧ ofTree extended =
        .error (.diagnostic ⟨problem, token.line, token.column, tree.path⟩) := by
  have filled := filled_of_ofNode lowered
  rw [ofTree, ofNode_eq_ofParts filled, inserts.children, definitionsAmong_append] at lowered
  rw [← inserts.children] at lowered
  obtain ⟨larger, first, others, split, place, decided, areSignatures⟩ :=
    exists_ofParts_insert lowered (childAt_eq_ok.mpr isName) freshFunction freshVariable
  rw [ofTree, inserts.path, ofNode_eq_ofParts (inserts.filled parsed filled),
    inserts.definitionsAmong_eq parsed, inserts.mainAmong_eq parsed, decided]
  have judged : Judged tree.path definition.leaves
      (lowerFunction tree.path larger definition) := parsed.judged legible
  generalize isFunction : lowerFunction tree.path larger definition = result at judged
  cases judged with
  | value function =>
      refine .inl ⟨first, function, others, split, place, rfl, ?_⟩
      rw [← areSignatures function isFunction]
      exact defines_of_ok isFunction
  | problem member identifier concerns =>
      exact .inr ⟨_, member, _, identifier, concerns, rfl⟩

/-- A function with the parameter `h`, and the output of its call with a variable. -/
def shadowing : Tree where
  root := .rule .program
    [.rule .statement [.rule .functionDef
      [.leaf ⟨.keyword .define, "Munus", 1, 0⟩, .leaf ⟨.identifier, "g", 1, 6⟩,
        .leaf ⟨.identifier, "h", 1, 8⟩, .leaf ⟨.equals, "=", 1, 10⟩,
        .leaf ⟨.identifier, "h", 1, 12⟩]],
    .rule .statement [.rule .variableDecl
      [.leaf ⟨.keyword .declare, "As", 2, 0⟩, .leaf ⟨.identifier, "x", 2, 3⟩,
        .leaf ⟨.equals, "=", 2, 5⟩, .leaf ⟨.numeral, "IV", 2, 7⟩]],
    .rule .statement [.rule .outputStmt
      [.leaf ⟨.keyword .output, "Grafo", 3, 0⟩,
        .rule .call [.leaf ⟨.identifier, "g", 3, 6⟩, .leaf ⟨.identifier, "x", 3, 8⟩]]],
    .leaf ⟨.endOfText, "", 3, 9⟩]
  path := none

def shadowedTokens : List Token :=
  [⟨.keyword .define, "Munus", 1, 0⟩, ⟨.identifier, "h", 1, 6⟩, ⟨.identifier, "n", 1, 8⟩,
    ⟨.equals, "=", 1, 10⟩, ⟨.identifier, "g", 1, 12⟩, ⟨.identifier, "n", 1, 14⟩,
    ⟨.endOfText, "", 1, 15⟩]

def shadowed : Node :=
  .rule .functionDef
    [.leaf ⟨.keyword .define, "Munus", 1, 0⟩, .leaf ⟨.identifier, "h", 1, 6⟩,
      .leaf ⟨.identifier, "n", 1, 8⟩, .leaf ⟨.equals, "=", 1, 10⟩,
      .rule .call [.leaf ⟨.identifier, "g", 1, 12⟩, .leaf ⟨.identifier, "n", 1, 14⟩]]

def shadowingProgram (others : List Function) : Program where
  functions := ⟨"g", ["h"], .variable "h"⟩ :: others
  statements := [.declaration "x" (.literal 4), .output (.call "g" [.variable "x"])]

theorem ofTree_insert_definition_shadowed :
    ∃ extended, ofTree shadowing = .ok (shadowingProgram []) ∧
      Inserts (shadowing.root.children.take 2) (shadowing.root.children.drop 2)
        (.rule .statement [shadowed]) shadowing extended ∧
      ParsedDefinition (.rule .statement [shadowed]) shadowed ∧
      (∀ token ∈ shadowed.leaves, token.Legible) ∧
      nameOf? shadowed = some (.leaf ⟨.identifier, "h", 1, 6⟩) ∧
      ∃ function, ofTree extended = .ok (shadowingProgram [function]) ∧
        Defines none (signatures (shadowingProgram [function])) shadowed function := by
  let extended : Tree := ⟨.rule .program (shadowing.root.children.take 2 ++
    .rule .statement [shadowed] :: shadowing.root.children.drop 2), none⟩
  have lowered : ofTree shadowing = .ok (shadowingProgram []) := by rfl
  have inserts : Inserts (shadowing.root.children.take 2) (shadowing.root.children.drop 2)
      (.rule .statement [shadowed]) shadowing extended := ⟨rfl, rfl, rfl⟩
  have accepted : Tree.ofTokens shadowedTokens none =
      .ok ⟨.rule .program [.rule .statement [shadowed], .leaf ⟨.endOfText, "", 1, 15⟩], none⟩ := by
    decide +kernel
  have parsed : ParsedDefinition (.rule .statement [shadowed]) shadowed :=
    ⟨⟨shadowedTokens, none, _, accepted, .head _⟩, rfl, rfl⟩
  have legible : ∀ token ∈ shadowed.leaves, token.Legible := by
    simp [shadowed, Token.Legible]
  have isName : nameOf? shadowed = some (.leaf ⟨.identifier, "h", 1, 6⟩) := rfl
  refine ⟨extended, lowered, inserts, parsed, legible, isName, ?_⟩
  rcases ofTree_insert_definition lowered inserts parsed legible isName (by decide) (by decide) with
    ⟨first, function, others, split, place, succeeded, defines⟩ | ⟨_, _, _, _, _, failed⟩
  · have one : first.length = 1 := place
    obtain ⟨only, rfl⟩ := List.length_eq_one_iff.mp one
    obtain ⟨rfl, rfl⟩ := List.cons.inj split
    exact ⟨function, succeeded, defines⟩
  · have calls : ofTree extended =
        .ok (shadowingProgram [⟨"h", ["n"], .call "g" [.variable "n"]⟩]) := by rfl
    rw [calls] at failed
    cases failed

end RomanScript.Program
