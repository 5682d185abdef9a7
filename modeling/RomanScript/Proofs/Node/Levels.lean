import RomanScript.Grammar.Reading

/-!
# Levels and heights

How deeply the nodes of an expression are nested, and how high they are. The levels are counted from
the tree alone: parentheses, the operands of a conditional and the operand of a sign lie one level
deeper than the node around them. The heights are counted as well, beside the recorded ones.
-/

namespace RomanScript.Node

open Grammar

/-- Whether the child at an index lies one level deeper than its parent. -/
def deepens : Symbol → Nat → Bool
  | .group, 1 => true
  | .conditional, _ + 1 => true
  | .signed, _ + 1 => true
  | _, _ => false

def levelOfChild (symbol : Symbol) (index level : Nat) : Nat :=
  if deepens symbol index then level + 1 else level

mutual

/-- The nodes of a walk, each with its level, where the first has the given level. -/
def levelled (level : Nat) : Node → List (Nat × Node)
  | leaf token => [(level, leaf token)]
  | branch symbol text line column height children =>
    (level, branch symbol text line column height children) ::
      levelledAll symbol 0 level children

/-- The same for the children of a parent at some level, from an index on. -/
def levelledAll (symbol : Symbol) (index level : Nat) : List Node → List (Nat × Node)
  | [] => []
  | node :: rest =>
    levelled (levelOfChild symbol index level) node ++ levelledAll symbol (index + 1) level rest

end

mutual

/-- The height that a node has as a tree. -/
def trueHeight : Node → Nat
  | leaf _ => 1
  | branch _ _ _ _ _ children => 1 + trueHeightOfAll children

def trueHeightOfAll : List Node → Nat
  | [] => 0
  | node :: rest => max (trueHeight node) (trueHeightOfAll rest)

end

/-- The expression with which a statement ends. -/
def expression? (statement : Node) : Option Node :=
  statement.children.head?.bind (·.children.getLast?)

/-- All nodes respect both limits when the first one has the given level. -/
def Within (level : Nat) (node : Node) : Prop :=
  ∀ entry ∈ node.levelled level, entry.1 ≤ nestingLimit ∧ entry.2.height ≤ heightLimit

def WithinAll (symbol : Symbol) (index level : Nat) (nodes : List Node) : Prop :=
  ∀ entry ∈ levelledAll symbol index level nodes,
    entry.1 ≤ nestingLimit ∧ entry.2.height ≤ heightLimit

variable {level : Nat} {symbol : Symbol} {index : Nat}

private theorem levelOfChild_add (symbol : Symbol) (index level more : Nat) :
    levelOfChild symbol index (level + more) = levelOfChild symbol index level + more := by
  unfold levelOfChild
  split <;> omega

mutual

theorem levelled_add (level more : Nat) :
    (node : Node) → levelled (level + more) node =
      (levelled level node).map fun entry => (entry.1 + more, entry.2)
  | leaf token => rfl
  | branch symbol text line column height children => by
      simp only [levelled, List.map_cons, levelledAll_add symbol 0 level more children]

theorem levelledAll_add (symbol : Symbol) (index level more : Nat) :
    (nodes : List Node) → levelledAll symbol index (level + more) nodes =
      (levelledAll symbol index level nodes).map fun entry => (entry.1 + more, entry.2)
  | [] => rfl
  | node :: rest => by
      simp only [levelledAll, List.map_append, levelOfChild_add,
        levelled_add (levelOfChild symbol index level) more node,
        levelledAll_add symbol (index + 1) level more rest]

end

/-- What respects the limits at one level does so at a lower one. -/
theorem Within.lower
    {node : Node} {lower : Nat} (within : node.Within level) (less : lower ≤ level) :
    node.Within lower := by
  obtain ⟨more, rfl⟩ := Nat.exists_eq_add_of_le less
  intro entry member
  have moved : (entry.1 + more, entry.2) ∈ node.levelled (lower + more) := by
    rw [levelled_add]
    exact List.mem_map_of_mem member
  have bounds := within _ moved
  dsimp only at bounds
  exact ⟨by omega, bounds.2⟩

theorem within_leaf {token : Token} (limit : level ≤ nestingLimit) :
    (leaf token).Within level := by
  intro entry member
  cases List.mem_singleton.mp member
  exact ⟨limit, (by decide : 1 ≤ heightLimit)⟩

theorem within_rule
    {children : List Node} (limit : level ≤ nestingLimit)
    (low : (rule symbol children).height ≤ heightLimit)
    (within : WithinAll symbol 0 level children) :
    (rule symbol children).Within level := by
  intro entry member
  rcases List.mem_cons.mp member with rfl | below
  · exact ⟨limit, low⟩
  · exact within entry below

theorem withinAll_nil : WithinAll symbol index level [] :=
  fun _ member => absurd member List.not_mem_nil

theorem withinAll_cons
    {node : Node} {rest : List Node}
    (first : node.Within (levelOfChild symbol index level))
    (others : WithinAll symbol (index + 1) level rest) :
    WithinAll symbol index level (node :: rest) := by
  intro entry member
  rcases List.mem_append.mp member with inFirst | inOthers
  · exact first entry inFirst
  · exact others entry inOthers

/-- Where every child from an index on lies on one level, each is within the limits there. -/
theorem withinAll_of_forall
    {nodes : List Node} {child : Nat}
    (same : ∀ later, index ≤ later → levelOfChild symbol later level = child)
    (within : ∀ node ∈ nodes, node.Within child) :
    WithinAll symbol index level nodes := by
  induction nodes generalizing index with
  | nil => exact withinAll_nil
  | cons node rest inductionHypothesis =>
      refine withinAll_cons ?_ (inductionHypothesis (fun later after => same later (by omega))
        fun other member => within other (.tail _ member))
      rw [same index (Nat.le_refl _)]
      exact within node (.head _)

private theorem levelOfChild_le (symbol : Symbol) (index level : Nat) :
    levelOfChild symbol index level ≤ level + 1 := by
  unfold levelOfChild
  split <;> omega

/-- Children respect the limits if they do so one level deeper than their parent. -/
theorem withinAll_of_deeper
    {nodes : List Node} (within : ∀ node ∈ nodes, node.Within (level + 1)) :
    WithinAll symbol index level nodes := by
  induction nodes generalizing index with
  | nil => exact withinAll_nil
  | cons node rest inductionHypothesis =>
      rw [List.forall_mem_cons] at within
      exact withinAll_cons (within.1.lower (levelOfChild_le symbol index level))
        (inductionHypothesis within.2)

private theorem levelled_head_mem (level : Nat) (node : Node) : (level, node) ∈ node.levelled level := by
  cases node <;> exact .head _

theorem Within.level_le {node : Node} (within : node.Within level) : level ≤ nestingLimit :=
  (within _ (node.levelled_head_mem level)).1

theorem Within.height_le {node : Node} (within : node.Within level) :
    node.height ≤ heightLimit :=
  (within _ (node.levelled_head_mem level)).2

private theorem WithinAll.get
    {nodes : List Node} {offset : Nat} {child : Node}
    (within : WithinAll symbol index level nodes) (isChild : nodes[offset]? = some child) :
    child.Within (levelOfChild symbol (index + offset) level) := by
  induction nodes generalizing index offset with
  | nil => cases isChild
  | cons node rest inductionHypothesis =>
      cases offset with
      | zero =>
          cases isChild
          exact fun entry member => within entry (List.mem_append_left _ member)
      | succ offset =>
          have others : WithinAll symbol (index + 1) level rest := fun entry member =>
            within entry (List.mem_append_right _ member)
          rw [Nat.add_comm offset 1, ← Nat.add_assoc]
          exact inductionHypothesis others isChild

theorem Within.child
    {children : List Node} {child : Node} (within : (rule symbol children).Within level)
    (isChild : children[index]? = some child) :
    child.Within (levelOfChild symbol index level) := by
  have all : WithinAll symbol 0 level children := fun entry member =>
    within entry (List.mem_cons_of_mem _ member)
  simpa using all.get isChild

mutual

theorem levelled_walk (level : Nat) :
    (node : Node) → (levelled level node).map (·.2) = walk node
  | leaf token => rfl
  | branch symbol text line column height children => by
      rw [levelled, List.map_cons, levelledAll_walk symbol 0 level children, walk]

theorem levelledAll_walk (symbol : Symbol) (index level : Nat) :
    (nodes : List Node) → (levelledAll symbol index level nodes).map (·.2) = walkAll nodes
  | [] => rfl
  | node :: rest => by
      rw [levelledAll, List.map_append, levelled_walk (levelOfChild symbol index level) node,
        levelledAll_walk symbol (index + 1) level rest, walkAll]

end

private theorem foldl_max_le
    {heights : List Nat} {highest bound : Nat} (low : highest ≤ bound)
    (lower : ∀ height ∈ heights, height ≤ bound) :
    heights.foldl max highest ≤ bound := by
  induction heights generalizing highest with
  | nil => exact low
  | cons first rest inductionHypothesis =>
      have firstLow := lower first (.head _)
      exact inductionHypothesis (by omega) fun height member => lower height (.tail _ member)

theorem rule_height_le
    {children : List Node} {bound : Nat} (low : ∀ child ∈ children, child.height ≤ bound) :
    (rule symbol children).height ≤ bound + 1 := by
  have highest : (children.map height).foldl max 0 ≤ bound :=
    foldl_max_le (Nat.zero_le _) (List.forall_mem_map.mpr low)
  change 1 + (children.map height).foldl max 0 ≤ bound + 1
  omega

/-- A statement ends with an expression that respects the limits from level one on, and it is at
most two higher than expressions may be. -/
def Bounded (statement : Node) : Prop :=
  ∃ expression, statement.expression? = some expression ∧ expression.Within 1 ∧
    statement.height ≤ heightLimit + 2

theorem bounded_statement
    {children : List Node} {expression : Node} (last : children.getLast? = some expression)
    (low : ∀ child ∈ children, child.height ≤ heightLimit) (within : expression.Within 1) :
    (rule .statement [rule symbol children]).Bounded := by
  refine ⟨expression, last, within, rule_height_le ?_⟩
  exact List.forall_mem_singleton.mpr (rule_height_le low)

/-- The recorded height of every node is its true height. -/
def Exact (node : Node) : Prop :=
  ∀ below ∈ node.walk, below.height = below.trueHeight

private theorem walk_head_mem (node : Node) : node ∈ node.walk := by
  cases node <;> exact .head _

private theorem Exact.height_eq {node : Node} (exact : node.Exact) : node.height = node.trueHeight :=
  exact node node.walk_head_mem

theorem Exact.within_iff {node : Node} (exact : node.Exact) :
    node.Within level ↔ ∀ entry ∈ node.levelled level,
      entry.1 ≤ nestingLimit ∧ entry.2.trueHeight ≤ heightLimit := by
  refine forall₂_congr fun entry member => ?_
  have below : entry.2 ∈ node.walk := by
    rw [← levelled_walk level node]
    exact List.mem_map_of_mem member
  rw [exact entry.2 below]

private theorem walk_subset_walkAll
    {top : Node} {nodes : List Node} (member : top ∈ nodes) :
    ∀ node ∈ top.walk, node ∈ walkAll nodes := by
  induction nodes with
  | nil => cases member
  | cons first rest inductionHypothesis =>
      intro node below
      rcases List.mem_cons.mp member with rfl | inRest
      · exact List.mem_append_left _ below
      · exact List.mem_append_right _ (inductionHypothesis inRest node below)

theorem mem_walkAll {node : Node} {nodes : List Node} (member : node ∈ walkAll nodes) :
    ∃ top ∈ nodes, node ∈ top.walk := by
  induction nodes with
  | nil => cases member
  | cons top rest inductionHypothesis =>
      rcases List.mem_append.mp member with inTop | inRest
      · exact ⟨top, .head _, inTop⟩
      · obtain ⟨other, isOther, below⟩ := inductionHypothesis inRest
        exact ⟨other, .tail _ isOther, below⟩

private theorem foldl_max_height (nodes : List Node) (highest : Nat)
    (exact : ∀ node ∈ nodes, node.height = node.trueHeight) :
    (nodes.map height).foldl max highest = max highest (trueHeightOfAll nodes) := by
  induction nodes generalizing highest with
  | nil => exact (Nat.max_zero highest).symm
  | cons node rest inductionHypothesis =>
      rw [List.map_cons, List.foldl_cons,
        inductionHypothesis _ fun other member => exact other (.tail _ member),
        exact node (.head _), trueHeightOfAll, Nat.max_assoc]

theorem exact_leaf (token : Token) : (leaf token).Exact := by
  intro below member
  cases List.mem_singleton.mp member
  rfl

/-- A rule records the true height if its children do. -/
theorem exact_rule
    {children : List Node} (exact : ∀ child ∈ children, child.Exact) :
    (rule symbol children).Exact := by
  intro below member
  rcases List.mem_cons.mp member with rfl | inChildren
  · have highest := foldl_max_height children 0 fun child isChild =>
      (exact child isChild).height_eq
    rw [Nat.zero_max] at highest
    exact congrArg (1 + ·) highest
  · obtain ⟨child, isChild, inChild⟩ := mem_walkAll inChildren
    exact exact child isChild below inChild

theorem Exact.child
    {node child : Node} (exact : node.Exact) (isChild : child ∈ node.children) : child.Exact := by
  cases node with
  | leaf token => cases isChild
  | branch symbol text line column height children =>
      intro below member
      exact exact below (.tail _ (walk_subset_walkAll isChild below member))

theorem Exact.expression
    {statement expression : Node} (exact : statement.Exact)
    (ends : statement.expression? = some expression) : expression.Exact := by
  obtain ⟨inner, first, last⟩ := Option.bind_eq_some_iff.mp ends
  have isInner : inner ∈ statement.children := List.mem_of_mem_head? first
  have isExpression : expression ∈ inner.children := List.mem_of_getLast? last
  exact (exact.child isInner).child isExpression

end RomanScript.Node
