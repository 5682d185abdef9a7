import RomanScript.Proofs.Reading.Phrased
import RomanScript.Proofs.Reading.Walk

/-!
# What can come next

Without conditionals, what may follow some tokens depends on little: on the part of a statement that
is expected and, within an expression, on the groups that are open and on whether a name or an
argument stands before. Tokens that lead from expectation to expectation are the beginning of a
sentence, and the tokens of a sentence lead to its end.
-/

namespace RomanScript.Grammar

/-- What is expected behind some tokens. An open group counts as `true` where it is an argument of a
call; behind a name or an argument, more arguments may follow. -/
inductive Expectation where
  | statement
  | definedName
  | parameters
  | declaredName
  | equals
  | operand (groups : List Bool)
  | argument (groups : List Bool)
  | operator (groups : List Bool)
  | nothing

namespace Expectation

/-- What is expected behind a token that begins a statement or ends the text. -/
def beginStatement : Symbol → Option Expectation
  | .keyword .define => some definedName
  | .keyword .declare => some declaredName
  | .keyword .output => some (operand [])
  | .endOfText => some nothing
  | _ => none

/-- What is expected behind an atom: more arguments of the call to which it belongs, or an
operator. -/
def afterAtom (groups : List Bool) : Bool → Expectation
  | true => argument groups
  | false => operator groups

def close : List Bool → Symbol → Option Expectation
  | [], symbol => beginStatement symbol
  | called :: groups, .closeParen => some (afterAtom groups called)
  | _ :: _, _ => none

def join (groups : List Bool) (symbol : Symbol) : Option Expectation :=
  if symbol ∈ binary then some (operand groups) else close groups symbol

/-- What is expected behind the first token of an atom, which is an argument of a call or not. Any
name may be followed by arguments: by its own or by more of the same call. -/
def beginAtom (groups : List Bool) (called : Bool) : Symbol → Option Expectation
  | .numeral | .keyword .input => some (afterAtom groups called)
  | .identifier => some (argument groups)
  | .openParen => some (operand (called :: groups))
  | _ => none

/-- What is expected behind one more token, if it is expected itself. -/
def step : Expectation → Symbol → Option Expectation
  | statement, symbol => beginStatement symbol
  | definedName, .identifier => some parameters
  | parameters, .identifier => some parameters
  | parameters, .equals => some (operand [])
  | declaredName, .identifier => some equals
  | equals, .equals => some (operand [])
  | operand groups, symbol =>
      if symbol ∈ [.plus, .minus] then some (operand groups) else beginAtom groups false symbol
  | argument groups, symbol =>
      if symbol ∈ atomStart then beginAtom groups true symbol else join groups symbol
  | operator groups, symbol => join groups symbol
  | _, _ => none

/-- What is expected behind some tokens, if each of them is expected in its turn. -/
def run : Expectation → List Token → Option Expectation
  | expectation, [] => some expectation
  | expectation, token :: rest => (expectation.step token.symbol).bind (run · rest)

private theorem run_append (expectation : Expectation) (first second : List Token) :
    expectation.run (first ++ second) = (expectation.run first).bind (·.run second) := by
  induction first generalizing expectation with
  | nil => rfl
  | cons token rest inductionHypothesis =>
      rw [List.cons_append, run, run]
      cases expectation.step token.symbol with
      | none => rfl
      | some next => exact inductionHypothesis next

/-- Behind an atom only another argument does not follow the whole operand. -/
theorem step_afterAtom
    {called : Bool} {symbol : Symbol} (groups : List Bool)
    (stops : called = true → symbol ∉ atomStart) :
    (afterAtom groups called).step symbol = join groups symbol := by
  cases called with
  | false => rfl
  | true => exact if_neg (stops rfl)

private theorem step_afterAtom_of_binary
    {symbol : Symbol} (groups : List Bool) (called : Bool) (isBinary : symbol ∈ binary) :
    (afterAtom groups called).step symbol = some (operand groups) := by
  rw [step_afterAtom groups fun _ isAtom => ?_, join, if_pos isBinary]
  have disjoint : ∀ other ∈ binary, other ∉ atomStart := by decide
  exact disjoint symbol isBinary isAtom

theorem run_cons_of_step
    {expectation next : Expectation} {token : Token} (rest : List Token)
    (stepped : expectation.step token.symbol = some next) :
    expectation.run (token :: rest) = next.run rest := by
  rw [run, stepped, Option.bind_some]

theorem run_append_of_run
    {expectation next : Expectation} {first : List Token} (second : List Token)
    (ran : expectation.run first = some next) :
    expectation.run (first ++ second) = next.run second := by
  rw [run_append, ran, Option.bind_some]

end Expectation

/-! ## Sentences -/

/-- Where a statement may begin: at the start or behind a whole expression. -/
inductive Expectation.Rests : Expectation → Prop
  | start : Rests .statement
  | behind (called : Bool) : Rests (.afterAtom [] called)

/-- A symbol that begins a statement or ends the text does so wherever a statement may begin. -/
theorem Expectation.Rests.step
    {expectation : Expectation} (rests : expectation.Rests) {symbol : Symbol}
    (isBoundary : symbol ∈ boundary) : expectation.step symbol = beginStatement symbol := by
  have joined : join [] symbol = beginStatement symbol := if_neg fun isBinary => by
    simp only [boundary, List.mem_cons, List.not_mem_nil, or_false] at isBoundary
    rcases isBoundary with rfl | rfl | rfl | rfl <;> exact absurd isBinary (by decide)
  cases rests with
  | start => rfl
  | behind called =>
      rw [step_afterAtom [] fun _ isAtom => ?_, joined]
      simp only [boundary, List.mem_cons, List.not_mem_nil, or_false] at isBoundary
      rcases isBoundary with rfl | rfl | rfl | rfl <;> exact absurd isAtom (by decide)

/-- How the tokens of a phrase lead on from where it is expected. -/
def Category.Runs : Category → List Token → Prop
  | .atom, tokens =>
      ∀ groups, (∃ called, (Expectation.operand groups).run tokens =
        some (.afterAtom groups called)) ∧
          (Expectation.argument groups).run tokens = some (.argument groups)
  | .term, tokens | .signed, tokens | .chain _, tokens =>
      ∀ groups, ∃ called,
        (Expectation.operand groups).run tokens = some (.afterAtom groups called)
  | .statement, tokens =>
      ∀ expectation : Expectation, expectation.Rests →
        ∃ called, expectation.run tokens = some (.afterAtom [] called)
  | .program, tokens => Expectation.statement.run tokens = some .nothing

section Runs

open Expectation

variable {tokens : List Token} {groups : List Bool}

private theorem run_group
    {opening closing : Token} (isOpening : opening.symbol = .openParen)
    (isClosing : closing.symbol = .closeParen) {expectation : Expectation} {called : Bool}
    (opens : expectation.step .openParen = some (operand (called :: groups)))
    (inner : Category.Runs .expression tokens) :
    expectation.run (opening :: tokens ++ [closing]) = some (afterAtom groups called) := by
  obtain ⟨last, ran⟩ := inner (called :: groups)
  have closes : (afterAtom (called :: groups) last).step closing.symbol =
      some (afterAtom groups called) := by
    rw [isClosing, step_afterAtom _ fun _ => by decide]
    rfl
  rw [List.cons_append, run_cons_of_step _ (isOpening ▸ opens), run_append_of_run _ ran,
    run_cons_of_step _ closes]
  rfl

private theorem run_arguments
    {arguments : List (List Token × Node)}
    (runs : ∀ argument ∈ arguments, Category.Runs .atom argument.1) :
    (argument groups).run (arguments.flatMap (·.1)) = some (argument groups) := by
  induction arguments with
  | nil => rfl
  | cons first rest inductionHypothesis =>
      obtain ⟨firstRuns, restRun⟩ := List.forall_mem_cons.mp runs
      rw [List.flatMap_cons, run_append_of_run _ (firstRuns groups).2]
      exact inductionHypothesis restRun

private theorem run_parameters
    {parameters : List Token} (names : ∀ parameter ∈ parameters, parameter.symbol = .identifier) :
    Expectation.parameters.run parameters = some .parameters := by
  induction parameters with
  | nil => rfl
  | cons name rest inductionHypothesis =>
      obtain ⟨isName, others⟩ := List.forall_mem_cons.mp names
      rw [run_cons_of_step _ (by rw [isName]; rfl)]
      exact inductionHypothesis others

private theorem run_statements
    {statements : List (List Token × Node)} {finish : Token} (isEnd : finish.symbol = .endOfText)
    (runs : ∀ statement ∈ statements, Category.Runs .statement statement.1)
    {expectation : Expectation} (rests : expectation.Rests) :
    expectation.run (statements.flatMap (·.1) ++ [finish]) = some .nothing := by
  induction statements generalizing expectation with
  | nil =>
      have ends : expectation.step finish.symbol = some .nothing := by
        rw [isEnd, rests.step (by decide)]
        rfl
      rw [List.flatMap_nil, List.nil_append, run_cons_of_step _ ends]
      rfl
  | cons first rest inductionHypothesis =>
      obtain ⟨firstRuns, restRun⟩ := List.forall_mem_cons.mp runs
      obtain ⟨called, ran⟩ := firstRuns expectation rests
      rw [List.flatMap_cons, List.append_assoc, run_append_of_run _ ran]
      exact inductionHypothesis restRun (.behind called)

/-- The tokens of a phrase without conditionals are expected in their turn. -/
theorem Phrase.runs
    {category : Category} {node : Node} (phrase : Phrase category tokens node)
    (plain : ∀ token ∈ tokens, token.symbol ≠ .keyword .choose) : category.Runs tokens := by
  induction phrase with
  | @simple token isSimple =>
      intro groups
      have split : token.symbol = .numeral ∨ token.symbol = .identifier ∨
          token.symbol = .keyword .input := by simpa using isSimple
      rcases split with isNumeral | isName | isInput
      · exact ⟨⟨false, by rw [run, isNumeral]; rfl⟩, by rw [run, isNumeral]; rfl⟩
      · exact ⟨⟨true, by rw [run, isName]; rfl⟩, by rw [run, isName]; rfl⟩
      · exact ⟨⟨false, by rw [run, isInput]; rfl⟩, by rw [run, isInput]; rfl⟩
  | group isOpening _ isClosing inner =>
      intro groups
      have inner := inner fun token member => plain token (by simp [member])
      have called : (argument groups).run _ = some (afterAtom groups true) :=
        run_group isOpening isClosing rfl inner
      exact ⟨⟨false, run_group isOpening isClosing rfl inner⟩, called⟩
  | call isName _ _ arguments =>
      intro groups
      refine ⟨true, ?_⟩
      rw [run_cons_of_step _ (by rw [isName]; rfl)]
      refine run_arguments fun argument member => arguments argument member fun token inside => ?_
      exact plain token (List.mem_cons_of_mem _ (List.mem_flatMap.mpr ⟨argument, member, inside⟩))
  | conditional isKeyword => exact absurd isKeyword (plain _ List.mem_cons_self)
  | alone _ atom => exact fun groups => (atom plain groups).1
  | @sign token _ _ isSign _ operand =>
      intro groups
      obtain ⟨called, ran⟩ := operand (List.forall_mem_cons.mp plain).2 groups
      have stepped : (Expectation.operand groups).step token.symbol = some (.operand groups) := by
        have split : token.symbol = .plus ∨ token.symbol = .minus := by simpa using isSign
        rcases split with same | same <;> rw [same] <;> rfl
      exact ⟨called, (run_cons_of_step _ stepped).trans ran⟩
  | unsigned _ term => exact term plain
  | @operand tier _ _ _ inner => cases tier <;> exact inner plain
  | @joined tier operator _ _ _ _ _ operates _ left right =>
      intro groups
      obtain ⟨plainLeft, plainRight⟩ := List.forall_mem_append.mp plain
      obtain ⟨called, ran⟩ := left plainLeft groups
      have stepped := step_afterAtom_of_binary groups called (Tier.operators_binary _ _ operates)
      have rightRuns := right (List.forall_mem_cons.mp plainRight).2
      obtain ⟨last, ranRight⟩ : ∃ last, (Expectation.operand groups).run _ =
          some (.afterAtom groups last) := by
        cases tier <;> exact rightRuns groups
      refine ⟨last, ?_⟩
      rw [run_append_of_run _ ran, run_cons_of_step _ stepped, ranRight]
  | @functionDef keyword name equals parameters _ _ isDefine isName names isEquals _ body =>
      intro expectation rests
      obtain ⟨called, ran⟩ := body (fun token member => plain token (by simp [member])) []
      refine ⟨called, ?_⟩
      rw [run_cons_of_step _ (by rw [isDefine, rests.step (by decide)]; rfl),
        run_cons_of_step _ (by rw [isName]; rfl), run_append_of_run _ (run_parameters names),
        run_cons_of_step _ (by rw [isEquals]; rfl), ran]
  | variableDecl isDeclare isName isEquals _ value =>
      intro expectation rests
      obtain ⟨called, ran⟩ := value (fun token member => plain token (by simp [member])) []
      refine ⟨called, ?_⟩
      rw [run_cons_of_step _ (by rw [isDeclare, rests.step (by decide)]; rfl),
        run_cons_of_step _ (by rw [isName]; rfl), run_cons_of_step _ (by rw [isEquals]; rfl), ran]
  | outputStmt isOutput _ value =>
      intro expectation rests
      obtain ⟨called, ran⟩ := value (fun token member => plain token (by simp [member])) []
      refine ⟨called, ?_⟩
      rw [run_cons_of_step _ (by rw [isOutput, rests.step (by decide)]; rfl), ran]
  | program _ isEnd statements =>
      refine run_statements isEnd (fun statement member => statements statement member ?_) .start
      intro token inside
      exact plain token
        (List.mem_append_left _ (List.mem_flatMap.mpr ⟨statement, member, inside⟩))

end Runs

/-! ## Completions -/

/-- Tokens behind a whole expression with which it is a whole expression again. -/
def Extends (tail : List Token) : Prop :=
  ∀ before node, Phrase .expression before node → ∃ whole, Phrase .expression (before ++ tail) whole

/-- More arguments, if any may follow, and then what is behind the operand. -/
def WithArguments (called : Bool) (behind : List Token → Prop) (tokens : List Token) : Prop :=
  ∃ (arguments : List (List Token × Node)) (rest : List Token),
    tokens = arguments.flatMap (·.1) ++ rest ∧ (called = false → arguments = []) ∧
      (∀ argument ∈ arguments, Phrase .atom argument.1 argument.2) ∧ behind rest

/-- What completes a program behind an operand: the rest of the expression, group by group, and then
more statements. -/
def AfterOperand : List Bool → List Token → Prop
  | [], tokens =>
      ∃ tail rest root, tokens = tail ++ rest ∧ Extends tail ∧ Phrase .program rest root
  | called :: groups, tokens =>
      ∃ tail closing rest, tokens = tail ++ closing :: rest ∧ Extends tail ∧
        closing.symbol = .closeParen ∧ WithArguments called (AfterOperand groups) rest

def FromOperand (groups : List Bool) (tokens : List Token) : Prop :=
  ∃ first node rest, tokens = first ++ rest ∧ Phrase .signed first node ∧ AfterOperand groups rest

/-- What completes a program where something is expected. -/
def Expectation.Completes : Expectation → List Token → Prop
  | statement, tokens => ∃ root, Phrase .program tokens root
  | definedName, tokens =>
      ∃ name names equals rest, tokens = name :: (names ++ equals :: rest) ∧
        name.symbol = .identifier ∧ (∀ other ∈ names, other.symbol = .identifier) ∧
          equals.symbol = .equals ∧ FromOperand [] rest
  | parameters, tokens =>
      ∃ names equals rest, tokens = names ++ equals :: rest ∧
        (∀ other ∈ names, other.symbol = .identifier) ∧ equals.symbol = .equals ∧
          FromOperand [] rest
  | declaredName, tokens =>
      ∃ name equals rest, tokens = name :: equals :: rest ∧ name.symbol = .identifier ∧
        equals.symbol = .equals ∧ FromOperand [] rest
  | equals, tokens =>
      ∃ equals rest, tokens = equals :: rest ∧ equals.symbol = .equals ∧ FromOperand [] rest
  | operand groups, tokens => FromOperand groups tokens
  | argument groups, tokens => WithArguments true (AfterOperand groups) tokens
  | operator groups, tokens => AfterOperand groups tokens
  | nothing, tokens => tokens = []

section Completes

open Expectation

variable {token : Token} {tokens more rest : List Token} {groups : List Bool} {node : Node}

/-- An operand joins an expression on its right, whatever binds more tightly. -/
theorem Phrase.exists_joined
    {before behind : List Token} {left right : Node} (phrase : Phrase .expression before left)
    (isBinary : token.symbol ∈ binary) (signed : Phrase .signed behind right) :
    ∃ whole, Phrase .expression (before ++ token :: behind) whole := by
  have split : token.symbol ∈ Tier.sum.operators ∨ token.symbol ∈ Tier.product.operators :=
    List.mem_append.mp (show token.symbol ∈ [.plus, .minus] ++ [.times, .divide] from isBinary)
  have single : Phrase (.chain .product) behind right := .operand signed
  rcases split with isSum | isProduct
  · exact ⟨_, .joined phrase isSum single⟩
  · cases phrase with
    | operand product =>
        have joined : Phrase (.chain .product) (before ++ token :: behind) _ :=
          .joined product isProduct signed
        exact ⟨_, .operand joined⟩
    | @joined _ operator first second _ _ phrase operates product =>
        have joined : Phrase (.chain .product) (second ++ token :: behind) _ :=
          .joined product isProduct signed
        rw [List.append_assoc, List.cons_append]
        exact ⟨_, .joined phrase operates joined⟩

private theorem extends_nil : Extends [] := by
  intro before node phrase
  rw [List.append_nil]
  exact ⟨node, phrase⟩

private theorem Extends.cons
    {behind tail : List Token} (extended : Extends tail) (isBinary : token.symbol ∈ binary)
    (signed : Phrase .signed behind node) : Extends (token :: behind ++ tail) := by
  intro before left phrase
  obtain ⟨whole, joined⟩ := phrase.exists_joined isBinary signed
  rw [← List.append_assoc]
  exact extended _ _ joined

private theorem Phrase.expression_of_signed (signed : Phrase .signed tokens node) :
    Phrase .expression tokens node :=
  have product : Phrase (.chain .product) tokens node := .operand signed
  .operand product

private theorem Phrase.signed_of_atom (atom : Phrase .atom tokens node) : Phrase .signed tokens node :=
  .unsigned (.alone atom)

/-- An operand and what extends it are an expression. -/
theorem Extends.exists_expression
    {tail : List Token} (extended : Extends tail) (signed : Phrase .signed tokens node) :
    ∃ whole, Phrase .expression (tokens ++ tail) whole :=
  extended _ _ signed.expression_of_signed

private theorem WithArguments.nil
    {called : Bool} {behind : List Token → Prop} (holds : behind tokens) :
    WithArguments called behind tokens :=
  ⟨[], tokens, rfl, fun _ => rfl, nofun, holds⟩

private theorem WithArguments.cons
    {first : List Token} {behind : List Token → Prop} (atom : Phrase .atom first node)
    (others : WithArguments true behind tokens) : WithArguments true behind (first ++ tokens) := by
  obtain ⟨arguments, rest, rfl, _, atoms, holds⟩ := others
  exact ⟨(first, node) :: arguments, rest, by simp, nofun,
    List.forall_mem_cons.mpr ⟨atom, atoms⟩, holds⟩

/-- What completes a program where an expression and the statements behind it are expected. -/
theorem FromOperand.exists_expression
    (completes : FromOperand [] tokens) :
    ∃ first body rest root, tokens = first ++ rest ∧ Phrase .expression first body ∧
      Phrase .program rest root := by
  obtain ⟨first, node, _, rfl, signed, tail, rest, root, rfl, extended, program⟩ := completes
  obtain ⟨body, phrase⟩ := extended.exists_expression signed
  exact ⟨first ++ tail, body, rest, root, by rw [List.append_assoc], phrase, program⟩

/-- The end of the text by itself is a program. -/
theorem exists_program_of_end
    (isEnd : token.symbol = .endOfText) : ∃ root, Phrase .program [token] root := by
  have none : ∀ part ∈ ([] : List (List Token × Node)), Phrase .statement part.1 part.2 := nofun
  exact ⟨_, .program none isEnd⟩

private theorem Phrase.exists_program_append
    {root : Node} (statement : Phrase .statement tokens node)
    (program : Phrase .program rest root) :
    ∃ root, Phrase .program (tokens ++ rest) root := by
  cases program with
  | @program statements finish phrases isEnd =>
      have all : ∀ part ∈ (tokens, node) :: statements, Phrase .statement part.1 part.2 :=
        List.forall_mem_cons.mpr ⟨statement, phrases⟩
      have whole := Phrase.program all isEnd
      rw [List.flatMap_cons, List.append_assoc] at whole
      exact ⟨_, whole⟩

private theorem completes_of_beginStatement
    {next : Expectation} (stepped : beginStatement token.symbol = some next)
    (completes : next.Completes more) : ∃ root, Phrase .program (token :: more) root := by
  unfold beginStatement at stepped
  split at stepped
  · rename_i isDefine
    cases stepped
    obtain ⟨name, names, equals, _, rfl, isName, areNames, isEquals, behind⟩ := completes
    obtain ⟨first, body, rest, root, rfl, phrase, program⟩ := behind.exists_expression
    have statement := Phrase.functionDef isDefine isName areNames isEquals phrase
    have whole := statement.exists_program_append program
    simpa using whole
  · rename_i isDeclare
    cases stepped
    obtain ⟨name, equals, _, rfl, isName, isEquals, behind⟩ := completes
    obtain ⟨first, body, rest, root, rfl, phrase, program⟩ := behind.exists_expression
    exact (Phrase.variableDecl isDeclare isName isEquals phrase).exists_program_append program
  · rename_i isOutput
    cases stepped
    obtain ⟨first, body, rest, root, rfl, phrase, program⟩ := completes.exists_expression
    exact (Phrase.outputStmt isOutput phrase).exists_program_append program
  · rename_i isEnd
    cases stepped
    cases completes
    exact exists_program_of_end isEnd
  · cases stepped

private theorem completes_of_afterAtom
    {called : Bool} (completes : (afterAtom groups called).Completes more) :
    WithArguments called (AfterOperand groups) more := by
  cases called with
  | false => exact .nil completes
  | true => exact completes

private theorem completes_of_join
    {next : Expectation} (stepped : join groups token.symbol = some next)
    (completes : next.Completes more) : AfterOperand groups (token :: more) := by
  unfold join at stepped
  split at stepped
  · rename_i isBinary
    cases stepped
    obtain ⟨first, node, rest, rfl, signed, behind⟩ := completes
    cases groups with
    | nil =>
        obtain ⟨tail, rest, root, rfl, extended, program⟩ := behind
        exact ⟨token :: first ++ tail, rest, root, by simp, extended.cons isBinary signed, program⟩
    | cons called groups =>
        obtain ⟨tail, closing, rest, rfl, extended, isClosing, others⟩ := behind
        exact ⟨token :: first ++ tail, closing, rest, by simp, extended.cons isBinary signed,
          isClosing, others⟩
  · unfold close at stepped
    split at stepped
    · obtain ⟨root, program⟩ := completes_of_beginStatement stepped completes
      exact ⟨[], token :: more, root, rfl, extends_nil, program⟩
    · rename_i isClosing
      cases stepped
      exact ⟨[], token, more, rfl, extends_nil, isClosing, completes_of_afterAtom completes⟩
    · cases stepped

/-- Behind the first token of an atom, the atom is completed first. A name that is no argument is
left out: it may begin a call. -/
theorem exists_atom_of_beginAtom
    {called : Bool} {next : Expectation}
    (stepped : beginAtom groups called token.symbol = some next)
    (completes : next.Completes more) (noCallee : called = true ∨ token.symbol ≠ .identifier) :
    ∃ atom inner rest, token :: more = atom ++ rest ∧ Phrase .atom atom inner ∧
      WithArguments called (AfterOperand groups) rest := by
  unfold beginAtom at stepped
  split at stepped
  · rename_i isNumeral
    cases stepped
    exact ⟨[token], _, more, rfl, .simple (by rw [isNumeral]; decide),
      completes_of_afterAtom completes⟩
  · rename_i isInput
    cases stepped
    exact ⟨[token], _, more, rfl, .simple (by rw [isInput]; decide),
      completes_of_afterAtom completes⟩
  · rename_i isName
    cases stepped
    rcases noCallee with rfl | notName
    · exact ⟨[token], _, more, rfl, .simple (by rw [isName]; decide), completes⟩
    · exact absurd isName notName
  · rename_i isOpening
    cases stepped
    obtain ⟨first, node, _, rfl, signed, tail, closing, rest, rfl, extended, isClosing, others⟩ :=
      completes
    obtain ⟨inner, phrase⟩ := extended.exists_expression signed
    exact ⟨_, _, rest, by simp, .group isOpening phrase isClosing, others⟩
  · cases stepped

private theorem fromOperand_of_atom
    (atom : Phrase .atom tokens node) (completes : AfterOperand groups rest) :
    FromOperand groups (tokens ++ rest) :=
  ⟨tokens, node, rest, rfl, atom.signed_of_atom, completes⟩

private theorem fromOperand_of_name
    (isName : token.symbol = .identifier)
    (completes : WithArguments true (AfterOperand groups) more) :
    FromOperand groups (token :: more) := by
  obtain ⟨arguments, rest, rfl, _, atoms, behind⟩ := completes
  by_cases none : arguments = []
  · subst none
    exact fromOperand_of_atom (.simple (by rw [isName]; decide)) behind
  · exact ⟨_, _, rest, rfl, .unsigned (.call isName none atoms), behind⟩

private theorem fromOperand_of_sign
    (isSign : token.symbol ∈ [.plus, .minus]) (completes : FromOperand groups more) :
    FromOperand groups (token :: more) := by
  obtain ⟨first, node, rest, rfl, signed, behind⟩ := completes
  exact ⟨token :: first, _, rest, rfl, .sign isSign signed, behind⟩

private theorem fromOperand_of_beginAtom
    {next : Expectation} (stepped : beginAtom groups false token.symbol = some next)
    (completes : next.Completes more) : FromOperand groups (token :: more) := by
  by_cases isName : token.symbol = .identifier
  · rw [isName] at stepped
    cases stepped
    exact fromOperand_of_name isName completes
  · obtain ⟨atom, inner, _, split, phrase, arguments, rest, rfl, none, _, behind⟩ :=
      exists_atom_of_beginAtom stepped completes (.inr isName)
    cases none rfl
    exact split ▸ fromOperand_of_atom phrase behind

/-- What completes a program behind an expected token completes it with that token before. -/
theorem Expectation.Completes.of_step
    {expectation next : Expectation} (completes : next.Completes more)
    (stepped : expectation.step token.symbol = some next) :
    expectation.Completes (token :: more) := by
  unfold Expectation.step at stepped
  split at stepped
  · exact completes_of_beginStatement stepped completes
  · rename_i isName
    cases stepped
    obtain ⟨names, equals, rest, rfl, areNames, behind⟩ := completes
    exact ⟨token, names, equals, rest, rfl, isName, areNames, behind⟩
  · rename_i isName
    cases stepped
    obtain ⟨names, equals, rest, rfl, areNames, behind⟩ := completes
    exact ⟨token :: names, equals, rest, rfl, List.forall_mem_cons.mpr ⟨isName, areNames⟩, behind⟩
  · rename_i isEquals
    cases stepped
    exact ⟨[], token, more, rfl, nofun, isEquals, completes⟩
  · rename_i isName
    cases stepped
    obtain ⟨equals, rest, rfl, behind⟩ := completes
    exact ⟨token, equals, rest, rfl, isName, behind⟩
  · rename_i isEquals
    cases stepped
    exact ⟨token, more, rfl, isEquals, completes⟩
  · split at stepped
    · rename_i isSign
      cases stepped
      exact fromOperand_of_sign isSign completes
    · exact fromOperand_of_beginAtom stepped completes
  · split at stepped
    · obtain ⟨atom, inner, rest, split, phrase, others⟩ :=
        exists_atom_of_beginAtom stepped completes (.inl rfl)
      exact split ▸ others.cons phrase
    · exact .nil (completes_of_join stepped completes)
  · exact completes_of_join stepped completes
  · cases stepped

private theorem Expectation.Completes.of_run
    {expectation next : Expectation} (completes : next.Completes more)
    (ran : expectation.run tokens = some next) : expectation.Completes (tokens ++ more) := by
  induction tokens generalizing expectation with
  | nil =>
      cases ran
      exact completes
  | cons token rest inductionHypothesis =>
      obtain ⟨middle, stepped, ran⟩ := Option.bind_eq_some_iff.mp ran
      exact (inductionHypothesis ran).of_step stepped

/-- Tokens without keywords, so that no statement begins among them. -/
def Wordless (tokens : List Token) : Prop :=
  ∀ token ∈ tokens, ∀ word, token.symbol ≠ .keyword word

def atEnd : Token := ⟨.endOfText, "", 0, 0⟩

private theorem wordless_atEnd : Wordless [atEnd] :=
  List.forall_mem_singleton.mpr nofun

private theorem exists_afterOperand (groups : List Bool) :
    ∃ tokens, Wordless tokens ∧ AfterOperand groups tokens := by
  induction groups with
  | nil =>
      obtain ⟨root, program⟩ := exists_program_of_end (rfl : atEnd.symbol = .endOfText)
      exact ⟨[atEnd], wordless_atEnd, [], _, root, rfl, extends_nil, program⟩
  | cons called groups inductionHypothesis =>
      obtain ⟨tokens, wordless, behind⟩ := inductionHypothesis
      refine ⟨⟨.closeParen, ")", 0, 0⟩ :: tokens, ?_, [], _, _, rfl, extends_nil, rfl, .nil behind⟩
      exact List.forall_mem_cons.mpr ⟨nofun, wordless⟩

private theorem exists_fromOperand (groups : List Bool) :
    ∃ tokens, Wordless tokens ∧ FromOperand groups tokens := by
  obtain ⟨tokens, wordless, behind⟩ := exists_afterOperand groups
  have numeral : Phrase .atom [⟨.numeral, "I", 0, 0⟩] _ := .simple (by decide)
  exact ⟨⟨.numeral, "I", 0, 0⟩ :: tokens, List.forall_mem_cons.mpr ⟨nofun, wordless⟩,
    fromOperand_of_atom numeral behind⟩

/-- Whatever is expected, the program can be completed without a keyword. -/
theorem Expectation.exists_completes (expectation : Expectation) :
    ∃ tokens, Wordless tokens ∧ expectation.Completes tokens := by
  obtain ⟨tokens, wordless, value⟩ := exists_fromOperand []
  have name : ∀ word, Symbol.identifier ≠ .keyword word := nofun
  have sign : ∀ word, Symbol.equals ≠ .keyword word := nofun
  cases expectation with
  | statement =>
      exact ⟨[atEnd], wordless_atEnd, exists_program_of_end rfl⟩
  | definedName =>
      refine ⟨⟨.identifier, "x", 0, 0⟩ :: ⟨.equals, "=", 0, 0⟩ :: tokens, ?_, _, [], _, tokens, rfl,
        rfl, nofun, rfl, value⟩
      exact List.forall_mem_cons.mpr ⟨name, List.forall_mem_cons.mpr ⟨sign, wordless⟩⟩
  | parameters =>
      refine ⟨⟨.equals, "=", 0, 0⟩ :: tokens, ?_, [], _, tokens, rfl, nofun, rfl, value⟩
      exact List.forall_mem_cons.mpr ⟨sign, wordless⟩
  | declaredName =>
      refine ⟨⟨.identifier, "x", 0, 0⟩ :: ⟨.equals, "=", 0, 0⟩ :: tokens, ?_, _, _, tokens, rfl,
        rfl, rfl, value⟩
      exact List.forall_mem_cons.mpr ⟨name, List.forall_mem_cons.mpr ⟨sign, wordless⟩⟩
  | equals =>
      refine ⟨⟨.equals, "=", 0, 0⟩ :: tokens, ?_, _, tokens, rfl, rfl, value⟩
      exact List.forall_mem_cons.mpr ⟨sign, wordless⟩
  | operand groups => exact exists_fromOperand groups
  | argument groups =>
      obtain ⟨tokens, wordless, behind⟩ := exists_afterOperand groups
      exact ⟨tokens, wordless, .nil behind⟩
  | operator groups => exact exists_afterOperand groups
  | nothing => exact ⟨[], nofun, rfl⟩

end Completes

/-- A sentence: a program without conditionals, its definitions and other statements in any
order. -/
def Sentence (tokens : List Token) : Prop :=
  (∀ token ∈ tokens, token.symbol ≠ .keyword .choose) ∧ ∃ root, Phrase .program tokens root

/-- The stricter order: no function is defined behind another statement. -/
def DefinitionsFirst (tokens : List Token) : Prop :=
  tokens.Pairwise fun earlier later =>
    earlier.symbol ∈ [.keyword .declare, .keyword .output] → later.symbol ≠ .keyword .define

/-- Where no statement is added, definitions that come first still do. -/
theorem DefinitionsFirst.append
    {tokens rest : List Token} (first : DefinitionsFirst tokens) (wordless : Wordless rest) :
    DefinitionsFirst (tokens ++ rest) := by
  refine List.pairwise_append.mpr ⟨first, ?_, ?_⟩
  · exact List.pairwise_of_forall_mem_list fun _ _ later member _ => wordless later member .define
  · exact fun _ _ later member _ => wordless later member .define

/-- What leads to an expectation begins a sentence, in the stricter order as far as it keeps to that
itself. -/
theorem Expectation.exists_sentence
    {tokens : List Token} {expectation : Expectation}
    (plain : ∀ token ∈ tokens, token.symbol ≠ .keyword .choose)
    (ran : statement.run tokens = some expectation) :
    ∃ rest, Sentence (tokens ++ rest) ∧
      (DefinitionsFirst tokens → DefinitionsFirst (tokens ++ rest)) := by
  obtain ⟨rest, wordless, completes⟩ := expectation.exists_completes
  have noConditional : ∀ token ∈ rest, token.symbol ≠ .keyword .choose :=
    fun token member => wordless token member .choose
  exact ⟨rest, ⟨List.forall_mem_append.mpr ⟨plain, noConditional⟩, completes.of_run ran⟩,
    fun first => first.append wordless⟩

/-- No sentence goes on with a token that is not expected. -/
theorem Expectation.not_sentence
    {tokens : List Token} {token : Token} {expectation : Expectation}
    (ran : statement.run tokens = some expectation)
    (unexpected : expectation.step token.symbol = none) (rest : List Token) :
    ¬ Sentence (tokens ++ token :: rest) := by
  rintro ⟨plain, root, program⟩
  have runs : statement.run (tokens ++ token :: rest) = some .nothing := program.runs plain
  rw [run_append_of_run _ ran, run, unexpected] at runs
  cases runs

end RomanScript.Grammar
