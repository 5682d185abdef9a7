import RomanScript.Proofs.Program.Valid

/-!
# Programs in writing

How a program is written down, with every operand, argument and branch in parentheses, and which
programs can be written so that they are understood as they were meant: those that are valid, whose
names are names of the language, whose signs exist, whose calls without arguments are not taken for
parameters, and whose expressions are not too high.
-/

namespace RomanScript

/-- A name begins with a lower-case letter, and letters and digits follow. -/
def isName (text : String) : Bool :=
  match text.toList with
  | [] => false
  | first :: rest => first.isLower && rest.all Char.isAlphanum

def Operator.sign : Operator → String
  | add => "+"
  | sub => "-"
  | mul => "*"
  | div => "/"

namespace Expression

section Induction

variable {motive : Expression → Prop} (literal : ∀ value, motive (.literal value))
    (named : ∀ name, motive (.variable name)) (input : motive .input)
    (unary : ∀ operator operand, motive operand → motive (.unary operator operand))
    (binary : ∀ operator left right, motive left → motive right →
      motive (.binary operator left right))
    (conditional : ∀ condition consequence alternative, motive condition → motive consequence →
      motive alternative → motive (.conditional condition consequence alternative))
    (call : ∀ name arguments, (∀ argument ∈ arguments, motive argument) →
      motive (.call name arguments))

include literal named input unary binary conditional call

/-- Induction over expressions, where a call comes after all of its arguments. -/
theorem induction : (expression : Expression) → motive expression
  | .literal value => literal value
  | .variable name => named name
  | .input => input
  | .unary operator operand => unary operator operand (induction operand)
  | .binary operator left right => binary operator left right (induction left) (induction right)
  | .conditional condition consequence alternative =>
      conditional condition consequence alternative (induction condition) (induction consequence)
        (induction alternative)
  | .call name arguments => call name arguments fun argument _ => induction argument

end Induction

def parenthesised (text : String) : String :=
  "(" ++ text ++ ")"

mutual

def text : Expression → String
  | literal value => Numeral.ofNat value.toNat
  | .variable name => name
  | input => "Anagnosi"
  | unary operator operand => " ".intercalate [operator.sign, parenthesised (text operand)]
  | binary operator left right =>
    " ".intercalate [parenthesised (text left), operator.sign, parenthesised (text right)]
  | conditional condition consequence alternative =>
    " ".intercalate ["Sinon", parenthesised (text condition), parenthesised (text consequence),
      parenthesised (text alternative)]
  | call name arguments => " ".intercalate (name :: argumentTexts arguments)

def argumentTexts : List Expression → List String
  | [] => []
  | first :: rest => parenthesised (text first) :: argumentTexts rest

end

theorem argumentTexts_eq_map (arguments : List Expression) :
    argumentTexts arguments = arguments.map fun argument => parenthesised argument.text := by
  induction arguments with
  | nil => rfl
  | cons first rest inductionHypothesis =>
      rw [argumentTexts, inductionHypothesis, List.map_cons]

mutual

/-- The height of an expression, in which a part without parts has height one. -/
def height : Expression → Nat
  | literal _ | .variable _ | input => 1
  | unary _ operand => 1 + height operand
  | binary _ left right => 1 + max (height left) (height right)
  | conditional condition consequence alternative =>
    1 + max (height condition) (max (height consequence) (height alternative))
  | call _ arguments => 1 + heightOfAll arguments

def heightOfAll : List Expression → Nat
  | [] => 0
  | first :: rest => max (height first) (heightOfAll rest)

end

theorem height_le_heightOfAll
    {argument : Expression} {arguments : List Expression} (member : argument ∈ arguments) :
    argument.height ≤ heightOfAll arguments := by
  induction arguments with
  | nil => cases member
  | cons first rest inductionHypothesis =>
      rw [heightOfAll]
      rcases List.mem_cons.mp member with rfl | inRest
      · exact Nat.le_max_left _ _
      · exact Nat.le_trans (inductionHypothesis inRest) (Nat.le_max_right _ _)

theorem height_pos (expression : Expression) : 1 ≤ expression.height := by
  cases expression <;> simp [height]

end Expression

def Function.text (function : Function) : String :=
  " ".intercalate ("Munus" :: function.name :: (function.parameters ++ ["=", function.body.text]))

def Statement.text : Statement → String
  | declaration name value => " ".intercalate ["As", name, "=", value.text]
  | output value => " ".intercalate ["Grafo", value.text]

def Program.lines (program : Program) : List String :=
  program.functions.map Function.text ++ program.statements.map Statement.text

/-- A program in writing, one line for every function and statement. -/
def Program.text (program : Program) : String :=
  "\n".intercalate program.lines

/-- The names that a program introduces. -/
def Program.names (program : Program) : List String :=
  program.functions.flatMap (fun function => function.name :: function.parameters) ++
    program.statements.filterMap Statement.declared?

/-- The programs that can be written: valid ones in which every name and every sign can be read, no
call is taken for a parameter, and no expression is too high. -/
structure Program.Writable (program : Program) : Prop where
  valid : program.Valid
  names : ∀ name ∈ program.names, isName name = true
  signs : ∀ expression ∈ program.expressions, ∀ operator operand,
    .unary operator operand ∈ expression.parts → operator = .add ∨ operator = .sub
  unhidden : ∀ function ∈ program.functions, ∀ name,
    .call name [] ∈ function.body.parts → name ∉ function.parameters
  low : ∀ expression ∈ program.expressions, expression.height ≤ 32

namespace Expression

/-- The expressions that can be written in a scope, beside functions of some signatures. -/
inductive Writable (signatures : Program.Signatures) (scope : List String) : Expression → Prop
  | literal {value : Int} : 0 ≤ value → value ≤ 3999 → Writable signatures scope (.literal value)
  | named {name : String} :
      isName name = true → name ∈ scope → Writable signatures scope (.variable name)
  | input : Writable signatures scope .input
  | unary {operator : Operator} {operand : Expression} :
      operator = .add ∨ operator = .sub → Writable signatures scope operand →
      Writable signatures scope (.unary operator operand)
  | binary (operator : Operator) {left right : Expression} :
      Writable signatures scope left → Writable signatures scope right →
      Writable signatures scope (.binary operator left right)
  | conditional {condition consequence alternative : Expression} :
      Writable signatures scope condition → Writable signatures scope consequence →
      Writable signatures scope alternative →
      Writable signatures scope (.conditional condition consequence alternative)
  | call {name : String} {arguments : List Expression} :
      isName name = true → (name, arguments.length) ∈ signatures →
      (arguments = [] → name ∉ scope) →
      (∀ argument ∈ arguments, Writable signatures scope argument) →
      Writable signatures scope (.call name arguments)

/-- What a part of an expression has to be so that the expression can be written. -/
def Fair (signatures : Program.Signatures) (scope : List String) : Expression → Prop
  | literal value => 0 ≤ value ∧ value ≤ 3999
  | .variable name => isName name = true ∧ name ∈ scope
  | unary operator _ => operator = .add ∨ operator = .sub
  | call name arguments =>
    isName name = true ∧ (name, arguments.length) ∈ signatures ∧ (arguments = [] → name ∉ scope)
  | _ => True

private theorem parts_subset_partsOfAll
    {argument : Expression} {arguments : List Expression} (member : argument ∈ arguments) :
    argument.parts ⊆ partsOfAll arguments := by
  induction arguments with
  | nil => cases member
  | cons first rest inductionHypothesis =>
      intro part inArgument
      rcases List.mem_cons.mp member with rfl | inRest
      · exact List.mem_append_left _ inArgument
      · exact List.mem_append_right _ (inductionHypothesis inRest inArgument)

variable {signatures : Program.Signatures} {scope : List String}

/-- An expression can be written if each of its parts is fair. -/
theorem writable_of_parts
    (expression : Expression) (fair : ∀ part ∈ expression.parts, part.Fair signatures scope) :
    expression.Writable signatures scope := by
  induction expression using induction with
  | literal value =>
      have bounds := fair _ (.head _)
      exact .literal bounds.1 bounds.2
  | named name =>
      have known := fair _ (.head _)
      exact .named known.1 known.2
  | input => exact .input
  | unary operator operand inductionHypothesis =>
      rw [parts, List.forall_mem_cons] at fair
      exact .unary fair.1 (inductionHypothesis fair.2)
  | binary operator left right writableLeft writableRight =>
      rw [parts, List.forall_mem_cons, List.forall_mem_append] at fair
      exact .binary operator (writableLeft fair.2.1) (writableRight fair.2.2)
  | conditional condition consequence alternative writable writable' writable'' =>
      rw [parts, List.forall_mem_cons, List.forall_mem_append, List.forall_mem_append] at fair
      exact .conditional (writable fair.2.1) (writable' fair.2.2.1) (writable'' fair.2.2.2)
  | call name arguments inductionHypothesis =>
      rw [parts, List.forall_mem_cons] at fair
      obtain ⟨⟨isName, known, unhidden⟩, fairArguments⟩ := fair
      refine .call isName known unhidden fun argument member => ?_
      exact inductionHypothesis argument member fun part inArgument =>
        fairArguments part (parts_subset_partsOfAll member inArgument)

end Expression

namespace Program

open Expression

variable {program : Program}

/-- The parts of an expression of a program are fair in a scope of names of the program that has
its variables and hides none of its calls. -/
theorem Writable.fair
    (writable : program.Writable) {expression : Expression} {scope : List String}
    (member : expression ∈ program.expressions) (included : scope ⊆ program.names)
    (known : ∀ name, .variable name ∈ expression.parts → name ∈ scope)
    (unhidden : ∀ name, .call name [] ∈ expression.parts → name ∉ scope) :
    ∀ part ∈ expression.parts, part.Fair program.signatures scope := by
  intro part isPart
  match part, isPart with
  | .literal value, isPart => exact writable.valid.literals expression member value isPart
  | .variable name, isPart =>
      have inScope := known name isPart
      exact ⟨writable.names name (included inScope), inScope⟩
  | .unary operator operand, isPart =>
      exact writable.signs expression member operator operand isPart
  | .call name arguments, isPart =>
      obtain ⟨function, isFunction, isCallee, arity⟩ :=
        writable.valid.calls expression member name arguments isPart
      have isNamed : name ∈ program.names := by
        refine List.mem_append_left _ (List.mem_flatMap.mpr ⟨function, isFunction, ?_⟩)
        exact isCallee ▸ .head _
      refine ⟨writable.names name isNamed, ?_, ?_⟩
      · exact mem_signatures.mpr ⟨function, isFunction, isCallee, arity⟩
      · rintro rfl
        exact unhidden name isPart
  | .input, _ | .binary .., _ | .conditional .., _ => exact trivial

/-- The body of a function can be written in the scope of its parameters. -/
theorem Writable.body
    (writable : program.Writable) {function : Function} (member : function ∈ program.functions) :
    function.body.Writable program.signatures function.parameters := by
  have isExpression : function.body ∈ program.expressions :=
    List.mem_append_left _ (List.mem_map_of_mem member)
  refine writable_of_parts _ (writable.fair isExpression ?_ ?_ ?_)
  · intro name isParameter
    exact List.mem_append_left _ (List.mem_flatMap.mpr ⟨function, member, .tail _ isParameter⟩)
  · exact writable.valid.bodies function member
  · exact writable.unhidden function member

/-- The value of a statement can be written in the scope of the variables declared before. -/
theorem Writable.value
    (writable : program.Writable) {before behind : List Statement} {statement : Statement}
    (split : program.statements = before ++ statement :: behind) :
    statement.value.Writable program.signatures (before.filterMap Statement.declared?) := by
  have isStatement : statement ∈ program.statements := by simp [split]
  have isExpression : statement.value ∈ program.expressions :=
    List.mem_append_right _ (List.mem_map_of_mem isStatement)
  have included : before.filterMap Statement.declared? ⊆
      program.statements.filterMap Statement.declared? := by
    rw [split, List.filterMap_append]
    exact List.subset_append_left _ _
  refine writable_of_parts _ (writable.fair isExpression ?_ ?_ ?_)
  · exact fun name declared => List.mem_append_right _ (included declared)
  · exact writable.valid.values before statement behind split
  · intro name isPart declared
    obtain ⟨function, isFunction, isCallee, _⟩ :=
      writable.valid.calls _ isExpression name [] isPart
    exact writable.valid.disjoint name (included declared)
      (List.mem_map.mpr ⟨function, isFunction, isCallee⟩)

end Program

end RomanScript
