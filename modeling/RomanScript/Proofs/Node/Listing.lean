import RomanScript.Proofs.Node.Heading
import RomanScript.Proofs.Node.Shape

/-!
# Listings

The listing of a tree tells the tree. Every line tells how far it is indented and what stands in
it, and the indentations tell which nodes are the children of which. The texts of the branches are
not listed, but the rules make them of the texts of the leaves.
-/

namespace RomanScript

namespace Node

def heading : Node → Heading
  | leaf token => ⟨token.symbol, some token.text, token.line, token.column⟩
  | branch symbol _ line column _ _ => ⟨symbol, none, line, column⟩

mutual

/-- The headings of a node and of all nodes below it, each with its indentation. -/
def outline (indent : Nat) : Node → List (Nat × Heading)
  | leaf token => [(indent, (leaf token).heading)]
  | branch symbol text line column height children =>
    (indent, (branch symbol text line column height children).heading) ::
      outlineAll (indent + 1) children

def outlineAll (indent : Nat) : List Node → List (Nat × Heading)
  | [] => []
  | node :: rest => outline indent node ++ outlineAll indent rest

end

private theorem flatMap_indentation (indent : Nat) :
    (List.replicate indent "  ").flatMap String.toList = List.replicate (2 * indent) ' ' := by
  induction indent with
  | zero => rfl
  | succ indent inductionHypothesis =>
      rw [List.replicate_succ, List.flatMap_cons, inductionHypothesis]
      rfl

mutual

/-- The lines of a node are those of its outline. -/
theorem lines_eq_outline (indent : Nat) :
    (node : Node) → (lines indent node).map String.toList =
      (outline indent node).map fun entry => entry.2.row entry.1
  | leaf token => by
      simp [lines, outline, heading, Heading.row, Heading.label, flatMap_indentation]
  | branch symbol text line column height children => by
      rw [lines, outline, List.map_cons, List.map_cons, linesOfAll_eq_outlineAll]
      simp [heading, Heading.row, Heading.label, flatMap_indentation]

theorem linesOfAll_eq_outlineAll (indent : Nat) :
    (nodes : List Node) → (linesOfAll indent nodes).map String.toList =
      (outlineAll indent nodes).map fun entry => entry.2.row entry.1
  | [] => rfl
  | node :: rest => by
      rw [linesOfAll, outlineAll, List.map_append, List.map_append, lines_eq_outline,
        linesOfAll_eq_outlineAll]

end

/-- A leaf is of a terminal symbol, and a branch of a rule. -/
def Known : Node → Prop
  | leaf token => token.symbol ∈ Symbol.terminals
  | branch symbol _ _ _ _ _ => symbol ∈ Symbol.rules

theorem Known.heading {node : Node} (known : node.Known) : node.heading.Known := by
  cases node with
  | leaf token => exact List.mem_append_left _ known
  | branch symbol text line column height children => exact List.mem_append_right _ known

private theorem known_leaf
    {token : Token} {symbols : List Symbol} (isSymbol : token.symbol ∈ symbols)
    (included : symbols ⊆ Symbol.terminals) : (leaf token).Known :=
  included isSymbol

private theorem IsExpression.known
    {rules : List Symbol} {node : Node} (expression : node.IsExpression rules)
    (included : rules ⊆ Symbol.rules) : node.Known := by
  cases node with
  | leaf token => exact known_leaf expression (by decide)
  | branch symbol text line column height children => exact included expression

theorem IsBranch.known
    {rules : List Symbol} {node : Node} (branch : node.IsBranch rules)
    (included : rules ⊆ Symbol.rules) : node.Known := by
  cases node with
  | leaf token => exact branch.elim
  | branch symbol text line column height children => exact included branch

theorem Instance.known
    {symbol : Symbol} {children : List Node} (made : Instance symbol children) :
    ∀ child ∈ children, child.Known := by
  have token {token : Token} {symbol : Symbol} (isSymbol : token.symbol = symbol)
      (included : [symbol] ⊆ Symbol.terminals) : (leaf token).Known :=
    known_leaf (List.mem_singleton.mpr isSymbol) included
  cases made with
  | program statements finish =>
      rw [List.forall_mem_append, List.forall_mem_singleton]
      exact ⟨fun statement member => (statements statement member).known (by decide),
        token finish (by decide)⟩
  | statement inner => simpa using inner.known (by decide)
  | functionDef keyword name parameters equals body =>
      simp only [List.cons_append, List.forall_mem_cons, List.forall_mem_append,
        List.forall_mem_map]
      exact ⟨token keyword (by decide), token name (by decide),
        fun parameter member => token (parameters parameter member) (by decide),
        token equals (by decide), body.known (by decide), by simp⟩
  | variableDecl keyword name equals value =>
      simp only [List.forall_mem_cons]
      exact ⟨token keyword (by decide), token name (by decide), token equals (by decide),
        value.known (by decide), by simp⟩
  | outputStmt keyword value =>
      simp only [List.forall_mem_cons]
      exact ⟨token keyword (by decide), value.known (by decide), by simp⟩
  | sum left operator right =>
      simp only [List.forall_mem_cons]
      exact ⟨left.known (by decide), known_leaf operator (by decide), right.known (by decide),
        by simp⟩
  | product left operator right =>
      simp only [List.forall_mem_cons]
      exact ⟨left.known (by decide), known_leaf operator (by decide), right.known (by decide),
        by simp⟩
  | signed sign operand =>
      simp only [List.forall_mem_cons]
      exact ⟨known_leaf sign (by decide), operand.known (by decide), by simp⟩
  | call callee _ arguments =>
      rw [List.forall_mem_cons]
      exact ⟨token callee (by decide),
        fun argument member => (arguments argument member).known (by decide)⟩
  | conditional keyword condition consequence alternative =>
      simp only [List.forall_mem_cons]
      exact ⟨token keyword (by decide), condition.known (by decide),
        consequence.known (by decide), alternative.known (by decide), by simp⟩
  | group opening inner closing =>
      simp only [List.forall_mem_cons]
      exact ⟨token opening (by decide), inner.known (by decide), token closing (by decide),
        by simp⟩

variable {indent : Nat} {node other : Node} {rest rest' : List (Nat × Heading)}

private theorem exists_outline_eq (indent : Nat) (node : Node) :
    ∃ below, outline indent node = (indent, node.heading) :: below := by
  cases node with
  | leaf token => exact ⟨[], rfl⟩
  | branch symbol text line column height children => exact ⟨outlineAll (indent + 1) children, rfl⟩

private theorem outline_rule (indent : Nat) (symbol : Symbol) (children : List Node) :
    outline indent (rule symbol children) =
      (indent, (rule symbol children).heading) :: outlineAll (indent + 1) children := rfl

private theorem known_outlineAll
    {nodes : List Node} (known : ∀ node ∈ nodes, ∀ entry ∈ outline indent node, entry.2.Known) :
    ∀ entry ∈ outlineAll indent nodes, entry.2.Known := by
  induction nodes with
  | nil => exact fun entry member => absurd member List.not_mem_nil
  | cons node nodes inductionHypothesis =>
      have others := inductionHypothesis fun other isOther => known other (.tail _ isOther)
      exact List.forall_mem_append.mpr ⟨known node (.head _), others⟩

private theorem Regular.known_outline
    (regular : node.Regular) (known : node.Known) (indent : Nat) :
    ∀ entry ∈ outline indent node, entry.2.Known := by
  induction regular generalizing indent with
  | leaf token => exact List.forall_mem_singleton.mpr known.heading
  | rule made _ inductionHypothesis =>
      rw [outline_rule, List.forall_mem_cons]
      refine ⟨known.heading, known_outlineAll fun child isChild => ?_⟩
      exact inductionHypothesis child isChild (made.known child isChild) (indent + 1)

/-- The outline at hand ends here: what follows is not indented further than `indent`. -/
def EndsOutline (indent : Nat) (rest : List (Nat × Heading)) : Prop :=
  ∀ entry ∈ rest.head?, entry.1 ≤ indent

/-- The outline of the node tells the node, whatever follows. -/
def Told (node : Node) : Prop :=
  ∀ {indent : Nat} {other : Node} {rest rest' : List (Nat × Heading)}, other.Regular →
    EndsOutline indent rest → EndsOutline indent rest' →
      outline indent node ++ rest = outline indent other ++ rest' → node = other ∧ rest = rest'

private theorem endsOutline_outlineAll
    {nodes : List Node} (ends : EndsOutline indent rest) :
    EndsOutline (indent + 1) (outlineAll (indent + 1) nodes ++ rest) := by
  cases nodes with
  | nil =>
      intro entry isFirst
      exact Nat.le_succ_of_le (ends entry isFirst)
  | cons node nodes =>
      obtain ⟨below, begins⟩ := exists_outline_eq (indent + 1) node
      intro entry isFirst
      rw [outlineAll, begins] at isFirst
      cases isFirst
      exact Nat.le_refl _

/-- What is indented no further does not begin with the outline of a child. -/
theorem EndsOutline.ne_outline
    (ends : EndsOutline indent rest) (node : Node) : rest ≠ outline (indent + 1) node ++ rest' := by
  obtain ⟨below, begins⟩ := exists_outline_eq (indent + 1) node
  intro same
  rw [begins] at same
  have further := ends (indent + 1, node.heading) (by simp [same])
  exact Nat.not_succ_le_self indent further

/-- The outlines of the children tell the children. -/
theorem children_eq_of_outlineAll_eq
    {children others : List Node} (told : ∀ child ∈ children, child.Told)
    (regular : ∀ other ∈ others, other.Regular) (ends : EndsOutline indent rest)
    (ends' : EndsOutline indent rest')
    (same : outlineAll (indent + 1) children ++ rest = outlineAll (indent + 1) others ++ rest') :
    children = others ∧ rest = rest' := by
  induction children generalizing others with
  | nil =>
      cases others with
      | nil => exact ⟨rfl, same⟩
      | cons other others =>
          rw [outlineAll, outlineAll, List.append_assoc] at same
          exact absurd same (ends.ne_outline other)
  | cons child children inductionHypothesis =>
      cases others with
      | nil =>
          rw [outlineAll, outlineAll, List.append_assoc] at same
          exact absurd same.symm (ends'.ne_outline child)
      | cons other others =>
          rw [outlineAll, outlineAll, List.append_assoc, List.append_assoc] at same
          obtain ⟨isChild, areBelow⟩ := told child (.head _) (regular other (.head _))
            (endsOutline_outlineAll ends) (endsOutline_outlineAll ends') same
          obtain ⟨areChildren, isRest⟩ := inductionHypothesis
            (fun child member => told child (.tail _ member))
            (fun other member => regular other (.tail _ member)) areBelow
          exact ⟨by rw [isChild, areChildren], isRest⟩

private theorem told_leaf (token : Token) : (leaf token).Told := by
  intro indent other rest rest' regular ends ends' same
  cases regular with
  | leaf token' =>
      obtain ⟨entries, isRest⟩ := List.cons.inj same
      obtain ⟨symbols, texts, lines, columns⟩ := Heading.mk.inj (Prod.mk.inj entries).2
      obtain ⟨symbol, text, line, column⟩ := token
      obtain ⟨symbol', text', line', column'⟩ := token'
      cases symbols
      cases texts
      cases lines
      cases columns
      exact ⟨rfl, isRest⟩
  | rule _ _ =>
      rw [outline_rule] at same
      cases (Prod.mk.inj (List.cons.inj same).1).2

/-- A node that the rules of the grammar make is told by its outline: the indentation tells the
children, and with the symbol they tell the branch. -/
theorem Regular.told (regular : node.Regular) : node.Told := by
  induction regular with
  | leaf token => exact told_leaf token
  | @rule symbol children made regular inductionHypothesis =>
      intro indent other rest rest' regular' ends ends' same
      rw [outline_rule] at same
      cases regular' with
      | leaf token' => cases (Prod.mk.inj (List.cons.inj same).1).2
      | @rule symbol' children' made' regular' =>
          rw [outline_rule] at same
          obtain ⟨entries, areBelow⟩ := List.cons.inj same
          obtain ⟨areChildren, isRest⟩ := children_eq_of_outlineAll_eq inductionHypothesis regular'
            ends ends' areBelow
          have symbols : symbol = symbol' := (Heading.mk.inj (Prod.mk.inj entries).2).1
          exact ⟨by rw [symbols, areChildren], isRest⟩

/-- Lines that are the same show the same headings. -/
theorem eq_of_rows_eq
    {entries entries' : List (Nat × Heading)} (known : ∀ entry ∈ entries, entry.2.Known)
    (known' : ∀ entry ∈ entries', entry.2.Known)
    (same : entries.map (fun entry => entry.2.row entry.1) =
      entries'.map fun entry => entry.2.row entry.1) : entries = entries' := by
  induction entries generalizing entries' with
  | nil =>
      cases entries' with
      | nil => rfl
      | cons entry' entries' => cases same
  | cons entry entries inductionHypothesis =>
      cases entries' with
      | nil => cases same
      | cons entry' entries' =>
          obtain ⟨row, rows⟩ := List.cons.inj same
          obtain ⟨isKnown, others⟩ := List.forall_mem_cons.mp known
          obtain ⟨isKnown', others'⟩ := List.forall_mem_cons.mp known'
          obtain ⟨indents, headings⟩ := Heading.row_inj isKnown isKnown' row
          rw [inductionHypothesis others others' rows, Prod.ext indents headings]

/-- The lines of a listing are those of the outline. -/
theorem Regular.splitOn_listing
    (regular : node.Regular) (known : node.Known) (indent : Nat) :
    (node.listing indent).toList.splitOn '\n' =
      (outline indent node).map fun entry => entry.2.row entry.1 := by
  obtain ⟨below, begins⟩ := exists_outline_eq indent node
  rw [listing, String.toList_intercalate, lines_eq_outline]
  refine List.splitOn_intercalate '\n' ?_ (by simp [begins])
  rw [List.forall_mem_map]
  exact fun entry member =>
    Heading.newline_not_mem_row (regular.known_outline known indent entry member) entry.1

/-- Two different trees that the rules of the grammar make have different listings. -/
theorem Regular.eq_of_listing_eq
    (regular : node.Regular) (known : node.Known) (regular' : other.Regular)
    (known' : other.Known) (same : node.listing indent = other.listing indent) : node = other := by
  have rows := congrArg (fun text => text.toList.splitOn '\n') same
  simp only [regular.splitOn_listing known, regular'.splitOn_listing known'] at rows
  have outlines := eq_of_rows_eq (regular.known_outline known indent)
    (regular'.known_outline known' indent) rows
  have ends : EndsOutline indent [] := fun entry none => by cases none
  exact (regular.told regular' ends ends (by rw [outlines])).1

end Node

end RomanScript
