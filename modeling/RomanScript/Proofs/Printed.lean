import RomanScript.Proofs.Compilation
import RomanScript.Proofs.EditorService
import RomanScript.Proofs.Json
import RomanScript.Proofs.Node.Listing

/-!
# Printed trees

A tree leaves the library as a listing or as a JSON value. Both leave something out, and still no
two trees of accepted tokens come out alike.
-/

namespace RomanScript

private theorem Json.Same.elements
    {elements elements' : List Json} (same : Same (.array elements) (.array elements')) :
    List.Forall₂ Same elements elements' := by
  cases same with
  | array size each => exact List.forall₂_iff_zip.mpr ⟨size, each⟩

namespace Node

open EditorService

private theorem nodesJson_eq_map (nodes : List Node) : nodesJson nodes = nodes.map nodeJson := by
  induction nodes with
  | nil => rfl
  | cons node rest inductionHypothesis => rw [nodesJson, inductionHypothesis, List.map_cons]

private theorem nodeJson_eq (node : Node) :
    nodeJson node = .object [("name", .string node.symbol.name), ("text", .string node.text),
      ("line", .number node.line), ("column", .number node.column),
      ("children", .array (node.children.map nodeJson))] := by
  cases node with
  | leaf token => rfl
  | branch symbol text line column height children =>
      rw [nodeJson, nodesJson_eq_map]
      rfl

variable {node other : Node}

/-- What the values of two nodes have in common if they are the same. -/
structure Shown (node other : Node) : Prop where
  name : node.symbol.name = other.symbol.name
  text : node.text = other.text
  line : node.line = other.line
  column : node.column = other.column
  children : List.Forall₂ (fun child child' => Json.Same (nodeJson child) (nodeJson child'))
    node.children other.children

private theorem shown_of_same (same : Json.Same (nodeJson node) (nodeJson other)) : Shown node other := by
  rw [nodeJson_eq, nodeJson_eq] at same
  cases same with
  | object _ values =>
      have name := Json.respects_text? _ _ (@values "name" _ _ rfl rfl)
      have text := Json.respects_text? _ _ (@values "text" _ _ rfl rfl)
      have line := Json.respects_number? _ _ (@values "line" _ _ rfl rfl)
      have column := Json.respects_number? _ _ (@values "column" _ _ rfl rfl)
      have children := (@values "children" _ _ rfl rfl).elements
      rw [List.forall₂_map_left_iff, List.forall₂_map_right_iff] at children
      exact ⟨Option.some.inj name, Option.some.inj text, Option.some.inj line,
        Option.some.inj column, children⟩

private theorem symbol_eq_of_shown
    (known : node.Known) (known' : other.Known) (shown : Shown node other) :
    node.symbol = other.symbol := by
  have isKnown {node : Node} (known : node.Known) :
      node.symbol ∈ Symbol.terminals ++ Symbol.rules := by
    cases node with
    | leaf token => exact known.heading
    | branch symbol text line column height children => exact known.heading
  exact Symbol.eq_of_name_eq (isKnown known) (isKnown known') shown.name

/-- Children that are told by their values are equal if their values are the same. -/
theorem children_eq_of_same
    {children others : List Node}
    (told : ∀ child ∈ children, ∀ other ∈ others,
      Json.Same (nodeJson child) (nodeJson other) → child = other)
    (same : List.Forall₂ (fun child other => Json.Same (nodeJson child) (nodeJson other))
      children others) : children = others := by
  induction same with
  | nil => rfl
  | cons first _ inductionHypothesis =>
      have areEqual := inductionHypothesis fun child isChild other isOther =>
        told child (.tail _ isChild) other (.tail _ isOther)
      rw [told _ (.head _) _ (.head _) first, areEqual]

/-- Two different trees that the rules of the grammar make have different values. -/
theorem Regular.eq_of_same_nodeJson
    (regular : node.Regular) (known : node.Known) (regular' : other.Regular)
    (known' : other.Known) (same : Json.Same (nodeJson node) (nodeJson other)) : node = other := by
  induction regular generalizing other with
  | leaf token =>
      have shown := shown_of_same same
      cases regular' with
      | leaf token' =>
          obtain ⟨symbol, text, line, column⟩ := token
          obtain ⟨symbol', text', line', column'⟩ := token'
          cases symbol_eq_of_shown known known' shown
          cases shown.text
          cases shown.line
          cases shown.column
          rfl
      | rule made _ =>
          have noChildren := shown.children.length_eq
          exact absurd (List.length_eq_zero_iff.mp noChildren.symm) made.children_ne_nil
  | @rule symbol children made regular inductionHypothesis =>
      have shown := shown_of_same same
      cases regular' with
      | leaf token' =>
          have noChildren := shown.children.length_eq
          exact absurd (List.length_eq_zero_iff.mp noChildren) made.children_ne_nil
      | @rule symbol' children' made' regular' =>
          have areChildren : children = children' := by
            refine children_eq_of_same ?_ shown.children
            intro child isChild other isOther alike
            exact inductionHypothesis child isChild (made.known child isChild)
              (regular' other isOther) (made'.known other isOther) alike
          have symbols : symbol = symbol' := symbol_eq_of_shown known known' shown
          rw [symbols, areChildren]

end Node

namespace Tree

open Grammar

private theorem root_of_ofTokens
    {tokens : List Token} {path : Option String} {tree : Tree}
    (accepted : ofTokens tokens path = .ok tree) : tree.root.Regular ∧ tree.root.Known := by
  obtain ⟨finished, _⟩ := exists_of_ofTokensUnder_ok accepted
  have parsed := parsed_ofTokens finished path
  rw [accepted] at parsed
  cases parsed with
  | tree regular branch _ => exact ⟨regular, branch.known (by decide)⟩

/-- The listing of an accepted tree tells its root, and so does its JSON value, whatever the order
of the members. -/
theorem ofTokens_printed
    {tokens tokens' : List Token} {path path' : Option String} {tree tree' : Tree}
    (accepted : ofTokens tokens path = .ok tree) (accepted' : ofTokens tokens' path' = .ok tree') :
    (tree.root.listing 0 = tree'.root.listing 0 ↔ tree.root = tree'.root) ∧
      (Json.Same (EditorService.nodeJson tree.root) (EditorService.nodeJson tree'.root) ↔
        tree.root = tree'.root) := by
  obtain ⟨regular, known⟩ := root_of_ofTokens accepted
  obtain ⟨regular', known'⟩ := root_of_ofTokens accepted'
  constructor
  · constructor
    · intro listings
      exact regular.eq_of_listing_eq known regular' known' listings
    · intro roots
      rw [roots]
  · constructor
    · intro values
      exact regular.eq_of_same_nodeJson known regular' known' values
    · intro roots
      rw [roots]
      exact Json.Same.refl _

/-- One output of a name whose text looks like the end of a line and the beginning of another. -/
def brokenName : List Token :=
  Token.row [(.keyword .output, "Grafo"), (.identifier, "x\x27 L1:1\n      ROMAN \x27I"),
    (.endOfText, "")]

def brokenNameRoot : Node :=
  .rule .program
    [.rule .statement [.rule .outputStmt
      [.leaf ⟨.keyword .output, "Grafo", 1, 0⟩,
        .leaf ⟨.identifier, "x\x27 L1:1\n      ROMAN \x27I", 1, 1⟩]],
    .leaf ⟨.endOfText, "", 1, 2⟩]

theorem ofTokens_printed_brokenName :
    ofTokens oneOutput none = .ok ⟨oneOutputRoot, none⟩ ∧
      ofTokens brokenName (some "a") = .ok ⟨brokenNameRoot, some "a"⟩ ∧
        oneOutputRoot.listing 0 ≠ brokenNameRoot.listing 0 ∧
          ¬ Json.Same (EditorService.nodeJson oneOutputRoot)
            (EditorService.nodeJson brokenNameRoot) := by
  have accepted : ofTokens oneOutput none = .ok ⟨oneOutputRoot, none⟩ := by rfl
  have accepted' : ofTokens brokenName (some "a") = .ok ⟨brokenNameRoot, some "a"⟩ := by rfl
  have differ : oneOutputRoot ≠ brokenNameRoot := by decide +kernel
  obtain ⟨listings, values⟩ := ofTokens_printed accepted accepted'
  exact ⟨accepted, accepted', fun same => differ (listings.mp same),
    fun same => differ (values.mp same)⟩

end Tree

end RomanScript
