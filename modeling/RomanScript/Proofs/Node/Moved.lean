import Mathlib.Data.List.Forall2
import RomanScript.Failure
import RomanScript.Node

/-!
# The same words at other places

Two lists of tokens may differ in nothing but the places of the tokens. What is made of such lists
is told apart by places only: nodes that are built alike, and outcomes of which the diagnostics
state the same problem at tokens of the same index.
-/

namespace RomanScript

/-- Two tokens that stand at the same index and differ at most in their places. -/
structure Token.Paired (lefts rights : List Token) (x y : Token) : Prop where
  standing : ∃ index : Nat, lefts[index]? = some x ∧ rights[index]? = some y
  symbol : x.symbol = y.symbol
  text : x.text = y.text

variable {lefts rights : List Token} {path : Option String}

namespace Node

/-- Nodes that are built alike from paired tokens. -/
inductive Moved (lefts rights : List Token) : Node → Node → Prop
  | leaf {x y : Token} : x.Paired lefts rights y → Moved lefts rights (.leaf x) (.leaf y)
  | rule {symbol : Symbol} {children children' : List Node} :
      children.length = children'.length →
      (∀ {child child' : Node}, (child, child') ∈ children.zip children' →
        Moved lefts rights child child') →
      children ≠ [] → Moved lefts rights (.rule symbol children) (.rule symbol children')

def BeginPaired (lefts rights : List Token) (node node' : Node) : Prop :=
  ∃ x y : Token, x.Paired lefts rights y ∧ node.line = x.line ∧ node.column = x.column ∧
    node'.line = y.line ∧ node'.column = y.column

private theorem map_eq_of_zip
    {α β : Type} {part : α → β} {values values' : List α} (size : values.length = values'.length)
    (same : ∀ {value value' : α}, (value, value') ∈ values.zip values' →
      part value = part value') :
    values.map part = values'.map part := by
  have pointwise : List.Forall₂ (fun value value' => part value = part value') values values' :=
    List.forall₂_iff_zip.mpr ⟨size, same⟩
  have mapped : List.Forall₂ Eq (values.map part) (values'.map part) := by
    rwa [List.forall₂_map_left_iff, List.forall₂_map_right_iff]
  rwa [List.forall₂_eq_eq_eq] at mapped

/-- Lists that agree place by place agree at every index. -/
theorem at_of_pointwise
    {α β : Type} {same : α → β → Prop} {values : List α} {values' : List β}
    (pointwise : List.Forall₂ same values values') (index : Nat) :
    Option.Rel same values[index]? values'[index]? := by
  induction pointwise generalizing index with
  | nil => exact .none
  | cons first _ inductionHypothesis =>
      cases index with
      | zero => exact .some first
      | succ index => simpa using inductionHypothesis index

/-- Lists that agree place by place agree in their last places. -/
theorem last_of_pointwise
    {α β : Type} {same : α → β → Prop} {values : List α} {values' : List β}
    (pointwise : List.Forall₂ same values values') :
    Option.Rel same values.getLast? values'.getLast? := by
  induction pointwise with
  | nil => exact .none
  | cons first others inductionHypothesis =>
      cases others with
      | nil => exact .some first
      | cons => simpa [List.getLast?_cons_cons] using inductionHypothesis

namespace Moved

variable {node node' : Node}

theorem symbol (moved : Moved lefts rights node node') : node.symbol = node'.symbol := by
  cases moved with
  | leaf paired => exact paired.symbol
  | rule => rfl

theorem text (moved : Moved lefts rights node node') : node.text = node'.text := by
  induction moved with
  | leaf paired => exact paired.text
  | rule size _ _ inductionHypothesis =>
      exact congrArg String.join (map_eq_of_zip size inductionHypothesis)

theorem height (moved : Moved lefts rights node node') : node.height = node'.height := by
  induction moved with
  | leaf => rfl
  | rule size _ _ inductionHypothesis =>
      exact congrArg (fun heights => 1 + heights.foldl max 0)
        (map_eq_of_zip size inductionHypothesis)

theorem begins (moved : Moved lefts rights node node') :
    BeginPaired lefts rights node node' := by
  induction moved with
  | leaf paired => exact ⟨_, _, paired, rfl, rfl, rfl, rfl⟩
  | @rule _ children children' size _ nonempty inductionHypothesis =>
      cases children with
      | nil => exact absurd rfl nonempty
      | cons first rest =>
          cases children' with
          | nil => cases size
          | cons first' rest' =>
              have begins : BeginPaired lefts rights first first' := inductionHypothesis (.head _)
              exact begins

theorem of_children
    {children children' : List Node} (symbol : Symbol)
    (moved : List.Forall₂ (Moved lefts rights) children children') (nonempty : children ≠ []) :
    Moved lefts rights (.rule symbol children) (.rule symbol children') :=
  .rule (List.forall₂_iff_zip.mp moved).1 (List.forall₂_iff_zip.mp moved).2 nonempty

/-- What is built like a branch is a branch of the same rule. -/
theorem exists_of_rule
    {symbol : Symbol} {children : List Node}
    (moved : Moved lefts rights (.rule symbol children) node') :
    ∃ children', node' = .rule symbol children' ∧
      List.Forall₂ (Moved lefts rights) children children' := by
  generalize made : Node.rule symbol children = node at moved
  cases moved with
  | leaf => cases made
  | @rule symbol' children₁ children' size same _ =>
      have sameSymbol : symbol = symbol' := congrArg Node.symbol made
      have sameChildren : children = children₁ := congrArg Node.children made
      subst sameSymbol sameChildren
      exact ⟨children', rfl, List.forall₂_iff_zip.mpr ⟨size, same⟩⟩

theorem exists_of_leaf
    {x : Token} (moved : Moved lefts rights (.leaf x) node') :
    ∃ y, node' = .leaf y ∧ x.Paired lefts rights y := by
  cases moved with
  | leaf paired => exact ⟨_, rfl, paired⟩

theorem children (moved : Moved lefts rights node node') :
    List.Forall₂ (Moved lefts rights) node.children node'.children := by
  cases moved with
  | leaf => exact .nil
  | rule size same _ => exact List.forall₂_iff_zip.mpr ⟨size, same⟩

end Moved

end Node

inductive Diagnostic.Moved (lefts rights : List Token) (path : Option String) :
    Diagnostic → Diagnostic → Prop
  | intro (problem : Problem) {x y : Token} :
      x.Paired lefts rights y →
      Moved lefts rights path ⟨problem, x.line, x.column, path⟩ ⟨problem, y.line, y.column, path⟩

/-- Diagnostics about the same problem at paired tokens of texts that have paths of their own. -/
inductive Diagnostic.MovedBetween (lefts rights : List Token) (path path' : Option String) :
    Diagnostic → Diagnostic → Prop
  | intro (problem : Problem) {x y : Token} :
      x.Paired lefts rights y →
      MovedBetween lefts rights path path' ⟨problem, x.line, x.column, path⟩
        ⟨problem, y.line, y.column, path'⟩

private theorem Diagnostic.MovedBetween.moved
    {x y : Diagnostic} (moved : x.MovedBetween lefts rights path path y) :
    x.Moved lefts rights path y := by
  cases moved with
  | intro problem paired => exact .intro problem paired

/-- A diagnostic at one of two nodes that begin at paired tokens and the same at the other. -/
theorem Node.BeginPaired.diagnosticsBetween
    {node node' : Node} (begins : BeginPaired lefts rights node node') (problem : Problem)
    (path path' : Option String) :
    Diagnostic.MovedBetween lefts rights path path' ⟨problem, node.line, node.column, path⟩
      ⟨problem, node'.line, node'.column, path'⟩ := by
  obtain ⟨x, y, paired, line, column, line', column'⟩ := begins
  rw [line, column, line', column']
  exact .intro problem paired

theorem Node.BeginPaired.diagnostics
    {node node' : Node} (begins : BeginPaired lefts rights node node') (problem : Problem) :
    Diagnostic.Moved lefts rights path ⟨problem, node.line, node.column, path⟩
      ⟨problem, node'.line, node'.column, path⟩ :=
  (begins.diagnosticsBetween problem path path).moved

/-- Outcomes with related values or with diagnostics that differ in their places; a misuse may come
with any other. -/
inductive Failure.Moved {α β : Type} (lefts rights : List Token) (path : Option String)
    (values : α → β → Prop) : Except Failure α → Except Failure β → Prop
  | value {a : α} {b : β} : values a b → Moved lefts rights path values (.ok a) (.ok b)
  | diagnostic {x y : Diagnostic} :
      x.Moved lefts rights path y →
      Moved lefts rights path values (.error (.diagnostic x)) (.error (.diagnostic y))
  | misuse (misuse misuse' : Misuse) :
      Moved lefts rights path values (.error (.misuse misuse)) (.error (.misuse misuse'))

theorem Failure.Moved.bind
    {α β γ δ : Type} {values : α → β → Prop} {values' : γ → δ → Prop}
    {first : Except Failure α} {second : Except Failure β} {next : α → Except Failure γ}
    {next' : β → Except Failure δ} (begun : Moved lefts rights path values first second)
    (continued : ∀ a b, values a b → Moved lefts rights path values' (next a) (next' b)) :
    Moved lefts rights path values' (first >>= next) (second >>= next') := by
  cases begun with
  | value related => exact continued _ _ related
  | diagnostic moved => exact .diagnostic moved
  | misuse misuse misuse' => exact .misuse misuse misuse'

inductive Failure.MovedBetween {α β : Type} (lefts rights : List Token) (path path' : Option String)
    (values : α → β → Prop) : Except Failure α → Except Failure β → Prop
  | value {a : α} {b : β} :
      values a b → MovedBetween lefts rights path path' values (.ok a) (.ok b)
  | diagnostic {x y : Diagnostic} :
      x.MovedBetween lefts rights path path' y →
      MovedBetween lefts rights path path' values (.error (.diagnostic x)) (.error (.diagnostic y))

theorem Failure.MovedBetween.moved
    {α β : Type} {values : α → β → Prop} {first : Except Failure α} {second : Except Failure β}
    (moved : MovedBetween lefts rights path path values first second) :
    Moved lefts rights path values first second := by
  cases moved with
  | value related => exact .value related
  | diagnostic moved => exact .diagnostic moved.moved

end RomanScript
