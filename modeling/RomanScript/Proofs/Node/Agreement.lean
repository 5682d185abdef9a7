import Mathlib.Data.List.Forall2
import RomanScript.Node

/-!
# Nodes without heights

Two nodes agree when they become equal once all recorded heights are forgotten.
-/

namespace RomanScript.Node

mutual

/-- A node in which no heights are recorded. -/
def bare : Node → Node
  | leaf token => leaf token
  | branch symbol text line column _ children =>
    branch symbol text line column 0 (bareAll children)

def bareAll : List Node → List Node
  | [] => []
  | node :: rest => bare node :: bareAll rest

end

private theorem bareAll_eq_map (nodes : List Node) : bareAll nodes = nodes.map bare := by
  induction nodes with
  | nil => rfl
  | cons node rest inductionHypothesis => rw [bareAll, inductionHypothesis, List.map_cons]

variable {node : Node}

@[simp]
theorem symbol_bare : node.bare.symbol = node.symbol := by
  cases node <;> rfl

@[simp]
theorem text_bare : node.bare.text = node.text := by
  cases node <;> rfl

@[simp]
theorem line_bare : node.bare.line = node.line := by
  cases node <;> rfl

@[simp]
theorem column_bare : node.bare.column = node.column := by
  cases node <;> rfl

@[simp]
theorem children_bare : node.bare.children = node.children.map bare := by
  cases node with
  | leaf token => rfl
  | branch symbol text line column height children => exact bareAll_eq_map children

@[simp]
theorem bare_branch
    {symbol : Symbol} {text : String} {line column : Int} {height : Nat} {children : List Node} :
    (branch symbol text line column height children).bare =
      branch symbol text line column 0 (children.map bare) := by
  rw [bare, bareAll_eq_map]

/-- What becomes a branch is a branch with as many children. -/
theorem exists_of_bare_eq
    {symbol : Symbol} {text : String} {line column : Int} {height : Nat} {children : List Node}
    (same : node.bare = branch symbol text line column height children) :
    ∃ height' children', node = branch symbol text line column height' children' ∧
      List.Forall₂ (fun child' child => child'.bare = child) children' children := by
  cases node with
  | leaf token => cases same
  | branch symbol' text' line' column' height' children' =>
      rw [bare_branch, branch.injEq] at same
      obtain ⟨rfl, rfl, rfl, rfl, _, rfl⟩ := same
      exact ⟨height', children', rfl, List.forall₂_map_right_iff.mpr (List.forall₂_same.mpr
        fun _ _ => rfl)⟩

mutual

theorem agrees_iff_bare_eq (left right : Node) :
    left.agrees right = true ↔ left.bare = right.bare := by
  cases left with
  | leaf token => cases right <;> simp [agrees, bare]
  | branch symbol text line column height children =>
      cases right with
      | leaf token => simp [agrees, bare]
      | branch symbol' text' line' column' height' children' =>
          simp [agrees, agreeAll_iff_map_bare_eq children children', and_assoc]

theorem agreeAll_iff_map_bare_eq (lefts rights : List Node) :
    agreeAll lefts rights = true ↔ lefts.map bare = rights.map bare := by
  cases lefts with
  | nil => cases rights <;> simp [agreeAll]
  | cons left lefts =>
      cases rights with
      | nil => simp [agreeAll]
      | cons right rights =>
          simp [agreeAll, agrees_iff_bare_eq left right, agreeAll_iff_map_bare_eq lefts rights]

end

end RomanScript.Node
