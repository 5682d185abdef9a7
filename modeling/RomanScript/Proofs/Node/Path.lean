import RomanScript.Proofs.Node.Shape

/-!
# Paths in a tree

A path leads from the root of a tree to one of its nodes, child by child. It tells which leaves
stand before the node and behind it, and what encloses it.
-/

namespace RomanScript.Node

/-- A step from a branch to one of its children, with the children before and behind that one. -/
structure Step where
  parent : Node
  before : List Node
  behind : List Node

/-- A path leads from the root to a node below; its last step comes first. -/
inductive Below (root : Node) : List Step → Node → Prop
  | root : Below root [] root
  | child {path : List Step} {parent child : Node} {before behind : List Node} :
      Below root path parent → parent.children = before ++ child :: behind →
      Below root (⟨parent, before, behind⟩ :: path) child

def leavesBefore : List Step → List Token
  | [] => []
  | step :: path => leavesBefore path ++ step.before.flatMap leaves

def leavesBehind : List Step → List Token
  | [] => []
  | step :: path => step.behind.flatMap leaves ++ leavesBehind path

/-- The leaves of a node with children are those of its children. -/
theorem leaves_of_children
    {node : Node} {before behind : List Node} {child : Node}
    (children : node.children = before ++ child :: behind) :
    node.leaves = before.flatMap leaves ++ (child.leaves ++ behind.flatMap leaves) := by
  cases node with
  | leaf token => exact absurd children (by simp [Node.children])
  | branch symbol text line column height others =>
      have same : others = before ++ child :: behind := children
      rw [leaves, walk, List.filterMap_cons_none rfl, walkAll_eq_flatMap, List.filterMap_flatMap,
        same, List.flatMap_append, List.flatMap_cons]
      rfl

/-- A path splits the leaves of the root into those before the node, its own and those behind. -/
theorem Below.leaves_eq
    {root node : Node} {path : List Step} (below : root.Below path node) :
    root.leaves = leavesBefore path ++ (node.leaves ++ leavesBehind path) := by
  induction below with
  | root => simp [leavesBefore, leavesBehind]
  | child _ children inductionHypothesis =>
      rw [inductionHypothesis, leaves_of_children children]
      simp [leavesBefore, leavesBehind]

/-- A node ends with itself, with its last child, with the last child of that, and so on. -/
inductive EndsWith : Node → Node → Prop
  | self {node : Node} : EndsWith node node
  | last {node child final : Node} {before : List Node} :
      node.children = before ++ [child] → EndsWith child final → EndsWith node final

/-- Behind the last part of a node stands what stands behind the node. -/
theorem Below.exists_of_endsWith
    {root node final : Node} {path : List Step} (below : root.Below path node)
    (endsWith : node.EndsWith final) :
    ∃ longer, root.Below longer final ∧ leavesBehind longer = leavesBehind path := by
  induction endsWith generalizing path with
  | self => exact ⟨path, below, rfl⟩
  | last children _ inductionHypothesis =>
      obtain ⟨longer, below', same⟩ := inductionHypothesis (below.child children)
      exact ⟨longer, below', same⟩

/-- The rules within which it is decided anew whether calls are recognised. -/
def enclosures : List Symbol := [.group, .conditional]

/-- The innermost group or conditional around the end of a path. -/
def enclosing? (path : List Step) : Option Node :=
  (path.map Step.parent).find? (enclosures.contains ·.symbol)

theorem enclosing?_cons_of_not_mem
    {parent : Node} {before behind : List Node} {path : List Step}
    (unenclosed : parent.symbol ∉ enclosures) :
    enclosing? (⟨parent, before, behind⟩ :: path) = enclosing? path := by
  refine List.find?_cons_of_neg fun contained => unenclosed ?_
  exact List.contains_iff_mem.mp contained

/-- What a node shows: itself and everything below it that no group or conditional, itself included,
encloses. -/
inductive Shows : Node → Node → Prop
  | self {node : Node} : Shows node node
  | child {node child shown : Node} :
      node.symbol ∉ enclosures → child ∈ node.children → Shows child shown → Shows node shown

/-- Whether a child of a branch stands for a value by itself. Callees, arguments, parameters and
declared names do not: what is behind tells the names that are declared from the expression. -/
def StandsAlone : Symbol → List Node → Prop
  | .sum, _ | .product, _ | .signed, _ | .conditional, _ | .group, _ | .outputStmt, _ => True
  | .functionDef, behind | .variableDecl, behind => behind = []
  | _, _ => False

/-- A name at the end of a path that is an operand or a whole expression. -/
def IsOperandName (path : List Step) (node : Node) : Prop :=
  ∃ token step rest, node = leaf token ∧ token.symbol = .identifier ∧ path = step :: rest ∧
    StandsAlone step.parent.symbol step.behind

end RomanScript.Node
