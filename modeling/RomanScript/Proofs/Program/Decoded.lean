import RomanScript.Proofs.Json
import RomanScript.Proofs.Program.Writing

/-!
# Programs read back

Nothing of a program is lost in its written form: a program is read back from it, whatever the order
of the members of its objects. Programs with the same written form are built alike.
-/

namespace RomanScript

open Json

def Operator.ofName? (name : String) : Option Operator :=
  [add, sub, mul, div].find? (·.name == name)

namespace Expression

/-- The expression of an object, given what stands under its keys and under that of arguments. -/
def ofParts? (json : Json) (part? : String → Option Expression)
    (arguments? : Option (List Expression)) : Option Expression := do
  match ← readAt text? "type" json with
  | "literal" => return .literal (← readAt number? "value" json)
  | "variable" => return .variable (← readAt text? "name" json)
  | "input" => return .input
  | "unary" =>
    let name ← readAt text? "op" json
    return .unary (← Operator.ofName? name) (← part? "operand")
  | "binary" =>
    let name ← readAt text? "op" json
    return .binary (← Operator.ofName? name) (← part? "left") (← part? "right")
  | "conditional" =>
    return .conditional (← part? "condition") (← part? "then") (← part? "else")
  | "call" => return .call (← readAt text? "name" json) (← arguments?)
  | _ => none

mutual

def ofJson? : Json → Option Expression
  | .object members =>
    ofParts? (.object members) (fun key => ofMember? key members) (argumentsOf? members)
  | _ => none

def ofMember? (key : String) : List (String × Json) → Option Expression
  | [] => none
  | (name, value) :: rest => if name = key then ofJson? value else ofMember? key rest

def argumentsOf? : List (String × Json) → Option (List Expression)
  | [] => none
  | (name, value) :: rest => if name = "args" then ofArray? value else argumentsOf? rest

def ofArray? : Json → Option (List Expression)
  | .array elements => ofElements? elements
  | _ => none

def ofElements? : List Json → Option (List Expression)
  | [] => some []
  | element :: rest => do
    let first ← ofJson? element
    let others ← ofElements? rest
    return first :: others

end

end Expression

def Statement.ofJson? (json : Json) : Option Statement := do
  match ← readAt text? "type" json with
  | "declaration" =>
    return .declaration (← readAt text? "name" json) (← readAt Expression.ofJson? "value" json)
  | "output" => return .output (← readAt Expression.ofJson? "value" json)
  | _ => none

def Function.ofJson? (json : Json) : Option Function := do
  let name ← readAt text? "name" json
  let parameters ← readAt (readAll text?) "params" json
  let body ← readAt Expression.ofJson? "body" json
  return ⟨name, parameters, body⟩

def Program.ofJson? (json : Json) : Option Program := do
  let functions ← readAt (readAll Function.ofJson?) "functions" json
  let statements ← readAt (readAll Statement.ofJson?) "statements" json
  return ⟨functions, statements⟩

namespace Expression

private theorem ofMember?_eq_readAt (key : String) (members : List (String × Json)) :
    ofMember? key members = readAt ofJson? key (.object members) := by
  induction members with
  | nil => simp [ofMember?, readAt, member?]
  | cons member rest inductionHypothesis =>
      obtain ⟨name, value⟩ := member
      by_cases isKey : name = key
      · simp [ofMember?, readAt, member?, isKey]
      · simpa [ofMember?, readAt, member?, isKey] using inductionHypothesis

private theorem argumentsOf?_eq_readAt (members : List (String × Json)) :
    argumentsOf? members = readAt ofArray? "args" (.object members) := by
  induction members with
  | nil => simp [argumentsOf?, readAt, member?]
  | cons member rest inductionHypothesis =>
      obtain ⟨name, value⟩ := member
      by_cases isKey : name = "args"
      · simp [argumentsOf?, readAt, member?, isKey]
      · simpa [argumentsOf?, readAt, member?, isKey] using inductionHypothesis

private theorem ofElements?_eq_mapM (elements : List Json) :
    ofElements? elements = elements.mapM ofJson? := by
  induction elements with
  | nil => rfl
  | cons first rest inductionHypothesis =>
      rw [ofElements?, inductionHypothesis, List.mapM_cons]

/-- Expressions, single or in an array, are read alike from values that are the same. -/
theorem ofJson?_and_ofArray?_of_same
    {left right : Json} (same : Same left right) :
    ofJson? left = ofJson? right ∧ ofArray? left = ofArray? right := by
  induction same with
  | @array elements elements' size _ alike =>
      refine ⟨rfl, ?_⟩
      rw [ofArray?, ofArray?, ofElements?_eq_mapM, ofElements?_eq_mapM]
      apply mapM_congr
      exact List.forall₂_iff_zip.mpr ⟨size, fun member => (alike member).1⟩
  | @object members members' keys values alike =>
      refine ⟨?_, rfl⟩
      have texts := fun key => respects_text?.readAt key _ _ (.object keys values)
      have numbers := fun key => respects_number?.readAt key _ _ (.object keys values)
      have parts : ∀ key,
          readAt ofJson? key (.object members) = readAt ofJson? key (.object members') :=
        fun key => readAt_congr (keys key) fun found found' => (alike found found').1
      have arguments : readAt ofArray? "args" (.object members) =
          readAt ofArray? "args" (.object members') :=
        readAt_congr (keys "args") fun found found' => (alike found found').2
      simp only [ofJson?, ofMember?_eq_readAt, argumentsOf?_eq_readAt, ofParts?, texts, numbers,
        parts, arguments]
  | _ => exact ⟨rfl, rfl⟩

private theorem respects_ofJson? : Respects ofJson? :=
  fun _ _ same => (ofJson?_and_ofArray?_of_same same).1

end Expression

private theorem Statement.respects_ofJson? : Respects Statement.ofJson? := by
  intro left right same
  have types := respects_text?.readAt "type" left right same
  have names := respects_text?.readAt "name" left right same
  have values := Expression.respects_ofJson?.readAt "value" left right same
  simp only [ofJson?, types, names, values]

private theorem Function.respects_ofJson? : Respects Function.ofJson? := by
  intro left right same
  have names := respects_text?.readAt "name" left right same
  have parameters := respects_text?.readAll.readAt "params" left right same
  have bodies := Expression.respects_ofJson?.readAt "body" left right same
  simp only [ofJson?, names, parameters, bodies]

private theorem Program.respects_ofJson? : Respects Program.ofJson? := by
  intro left right same
  have functions := Function.respects_ofJson?.readAll.readAt "functions" left right same
  have statements := Statement.respects_ofJson?.readAll.readAt "statements" left right same
  simp only [ofJson?, functions, statements]

section Members

variable {α : Type} {key name : String} {value : Json} {members : List (String × Json)}
    {read : Json → Option α}

@[simp]
theorem Json.readAt_head : readAt read key (.object ((key, value) :: members)) = read value := by
  simp [readAt, member?]

@[simp]
theorem Json.readAt_tail (differs : name ≠ key) :
    readAt read key (.object ((name, value) :: members)) = readAt read key (.object members) := by
  simp [readAt, member?, differs]

end Members

@[simp]
theorem Operator.ofName?_name (operator : Operator) : ofName? operator.name = some operator := by
  cases operator <;> rfl

namespace Expression

private theorem toJsonAll_eq_map (arguments : List Expression) :
    toJsonAll arguments = arguments.map toJson := by
  induction arguments with
  | nil => rfl
  | cons first rest inductionHypothesis => rw [toJsonAll, inductionHypothesis, List.map_cons]

/-- An expression is read back from its written form. -/
@[simp]
theorem ofJson?_toJson (expression : Expression) : ofJson? expression.toJson = some expression := by
  induction expression using Expression.induction with
  | literal value => simp [toJson, ofJson?, ofParts?, text?, number?]
  | named name => simp [toJson, ofJson?, ofParts?, text?]
  | input => simp [toJson, ofJson?, ofParts?, text?]
  | unary operator operand regained =>
      simp [toJson, ofJson?, ofParts?, ofMember?, text?, regained]
  | binary operator left right regainedLeft regainedRight =>
      simp [toJson, ofJson?, ofParts?, ofMember?, text?, regainedLeft, regainedRight]
  | conditional condition consequence alternative regained₁ regained₂ regained₃ =>
      simp [toJson, ofJson?, ofParts?, ofMember?, text?, regained₁, regained₂, regained₃]
  | call name arguments regained =>
      have all : ofElements? (toJsonAll arguments) = some arguments := by
        rw [ofElements?_eq_mapM, toJsonAll_eq_map]
        exact mapM_map regained
      simp [toJson, ofJson?, ofParts?, argumentsOf?, ofArray?, text?, all]

end Expression

@[simp]
theorem Statement.ofJson?_toJson (statement : Statement) :
    ofJson? statement.toJson = some statement := by
  cases statement <;> simp [toJson, ofJson?, text?]

@[simp]
theorem Function.ofJson?_toJson (function : Function) :
    ofJson? function.toJson = some function := by
  have parameters : (function.parameters.map Json.string).mapM text? = some function.parameters :=
    mapM_map fun _ _ => rfl
  simp [toJson, ofJson?, text?, readAll, elements?, parameters]

private theorem Program.ofJson?_toJson (program : Program) : ofJson? program.toJson = some program := by
  have functions : (program.functions.map Function.toJson).mapM Function.ofJson? =
      some program.functions := mapM_map fun function _ => function.ofJson?_toJson
  have statements : (program.statements.map Statement.toJson).mapM Statement.ofJson? =
      some program.statements := mapM_map fun statement _ => statement.ofJson?_toJson
  simp [toJson, ofJson?, readAll, elements?, functions, statements]

namespace Expression

private theorem sameAll_iff
    {arguments : List Expression}
    (same_iff : ∀ argument ∈ arguments, ∀ other, same argument other = true ↔ argument = other)
    (others : List Expression) : sameAll arguments others = true ↔ arguments = others := by
  induction arguments generalizing others with
  | nil => cases others <;> simp [sameAll]
  | cons first rest inductionHypothesis =>
      obtain ⟨isFirst, areOthers⟩ := List.forall_mem_cons.mp same_iff
      cases others with
      | nil => simp [sameAll]
      | cons other others => simp [sameAll, isFirst, inductionHypothesis areOthers]

/-- Expressions that are built alike are equal. -/
@[simp]
theorem same_iff (expression other : Expression) :
    same expression other = true ↔ expression = other := by
  induction expression using Expression.induction generalizing other with
  | literal value => cases other <;> simp [same]
  | named name => cases other <;> simp [same]
  | input => cases other <;> simp [same]
  | unary operator operand alike => cases other <;> simp [same, alike]
  | binary operator left right alikeLeft alikeRight =>
      cases other <;> simp [same, alikeLeft, alikeRight, and_assoc]
  | conditional condition consequence alternative alike₁ alike₂ alike₃ =>
      cases other <;> simp [same, alike₁, alike₂, alike₃, and_assoc]
  | call name arguments alike => cases other <;> simp [same, sameAll_iff alike]

end Expression

@[simp]
theorem Statement.same_iff (statement other : Statement) :
    same statement other = true ↔ statement = other := by
  cases statement <;> cases other <;> simp [same]

@[simp]
theorem Function.same_iff (function other : Function) :
    same function other = true ↔ function = other := by
  cases function
  cases other
  simp [same, and_assoc]

private theorem sameList_iff
    {α : Type} {same : α → α → Bool} (same_iff : ∀ value other, same value other = true ↔ value = other)
    (values others : List α) : sameList same values others = true ↔ values = others := by
  induction values generalizing others with
  | nil => cases others <;> simp [sameList]
  | cons first rest inductionHypothesis =>
      cases others with
      | nil => simp [sameList]
      | cons other others => simp [sameList, same_iff, inductionHypothesis]

private theorem Program.same_iff (program other : Program) :
    same program other = true ↔ program = other := by
  cases program
  cases other
  simp [same, sameList_iff Function.same_iff, sameList_iff Statement.same_iff]

/-- Every program is read back from its written form, and programs whose written forms are the same
are built alike. -/
theorem Program.ofJson?_toJson_and_same_iff (program other : Program) :
    ofJson? program.toJson = some program ∧
      (program.toJson.Same other.toJson ↔ program.same other = true) := by
  refine ⟨ofJson?_toJson program, ?_⟩
  rw [same_iff]
  constructor
  · intro same
    have regained : some program = some other :=
      calc
        some program = ofJson? program.toJson := (ofJson?_toJson program).symm
        _ = ofJson? other.toJson := respects_ofJson? _ _ same
        _ = some other := ofJson?_toJson other
    exact Option.some.inj regained
  · rintro rfl
    exact Same.refl _

end RomanScript
