import RomanScript.Proofs.Reading.Phrase
import RomanScript.Proofs.Reading.Program

/-!
# Derivations are phrases

Whatever is derived is a phrase of the tokens that the derivation passes. So no token is lost or
read twice, and every branch of an accepted tree was made by a rule of the grammar.
-/

namespace RomanScript.Grammar

def Input.Spells (input : Input) : Int → List Token → Int → Prop
  | start, [], finish => start = finish
  | start, token :: rest, finish =>
    input.tokenAt? start = some token ∧ input.Spells (start + 1) rest finish

section Spells

variable {input : Input} {start middle finish : Int} {tokens more : List Token}

theorem spells_singleton
    {symbols : List Symbol} {token : Token} (standing : input.At start symbols token) :
    input.Spells start [token] (start + 1) :=
  ⟨standing.1, rfl⟩

private theorem spells_cons
    {symbols : List Symbol} {token : Token} (standing : input.At start symbols token)
    (spelled : input.Spells (start + 1) tokens finish) :
    input.Spells start (token :: tokens) finish :=
  ⟨standing.1, spelled⟩

theorem spells_append :
    input.Spells start (tokens ++ more) finish ↔
      ∃ middle, input.Spells start tokens middle ∧ input.Spells middle more finish := by
  induction tokens generalizing start with
  | nil =>
      constructor
      · intro spelled
        exact ⟨start, rfl, spelled⟩
      · rintro ⟨_, rfl, spelled⟩
        exact spelled
  | cons token rest inductionHypothesis =>
      rw [List.cons_append, Input.Spells, inductionHypothesis]
      constructor
      · rintro ⟨ahead, middle, first, second⟩
        exact ⟨middle, ⟨ahead, first⟩, second⟩
      · rintro ⟨middle, ⟨ahead, first⟩, second⟩
        exact ⟨ahead, middle, first, second⟩

theorem Input.Spells.append
    (first : input.Spells start tokens middle) (second : input.Spells middle more finish) :
    input.Spells start (tokens ++ more) finish :=
  spells_append.mpr ⟨middle, first, second⟩

theorem Input.Spells.finish_eq (spelled : input.Spells start tokens finish) :
    finish = start + tokens.length := by
  induction tokens generalizing start with
  | nil => simpa [Input.Spells] using spelled.symm
  | cons token rest inductionHypothesis =>
      have behind := inductionHypothesis spelled.2
      simp only [List.length_cons]
      omega

/-- Tokens that do not end the text stand before its end. -/
theorem Input.Spells.finish_le_size
    (spelled : input.Spells start tokens finish) (terminated : input.Terminated)
    (inside : start ≤ input.tokens.size) (noEnd : ∀ token ∈ tokens, token.symbol ≠ .endOfText) :
    finish ≤ input.tokens.size := by
  induction tokens generalizing start with
  | nil => exact spelled ▸ inside
  | cons token rest inductionHypothesis =>
      obtain ⟨notEnd, restNoEnd⟩ := List.forall_mem_cons.mp noEnd
      have standing : input.At start [token.symbol] token := ⟨spelled.1, .head _⟩
      have bound := standing.lt_size terminated (by simpa using notEnd.symm)
      exact inductionHypothesis spelled.2 (by omega) restNoEnd

end Spells

def OnePhrase (category : Category) (tokens : List Token) (nodes : List Node) : Prop :=
  ∃ node, nodes = [node] ∧ Phrase category tokens node

/-- Any number of phrases of a kind, one after another. -/
def Phrases (category : Category) (tokens : List Token) (nodes : List Node) : Prop :=
  ∃ parts : List (List Token × Node), tokens = parts.flatMap (·.1) ∧ nodes = parts.map (·.2) ∧
    ∀ part ∈ parts, Phrase category part.1 part.2

private theorem Phrases.cons
    {category : Category} {first rest : List Token} {node : Node} {nodes : List Node}
    (phrase : Phrase category first node) (phrases : Phrases category rest nodes) :
    Phrases category (first ++ rest) (node :: nodes) := by
  obtain ⟨parts, rfl, rfl, each⟩ := phrases
  exact ⟨(first, node) :: parts, rfl, rfl, List.forall_mem_cons.mpr ⟨phrase, each⟩⟩

/-- What the tokens of a part are, given its nodes. A rest lengthens the phrase before it. -/
def Part.Phrased : Part → List Token → List Node → Prop
  | .rule .group, tokens, nodes => OnePhrase .atom tokens nodes
  | .rule _, tokens, nodes => OnePhrase .term tokens nodes
  | .atom, tokens, nodes => OnePhrase .atom tokens nodes
  | .atoms, tokens, nodes => Phrases .atom tokens nodes
  | .term _, tokens, nodes => OnePhrase .term tokens nodes
  | .signed _, tokens, nodes => OnePhrase .signed tokens nodes
  | .chain tier _, tokens, nodes => OnePhrase (.chain tier) tokens nodes
  | .rest tier _ left, tokens, nodes => ∀ before, Phrase (.chain tier) before left →
      OnePhrase (.chain tier) (before ++ tokens) nodes
  | .names, tokens, nodes =>
      nodes = tokens.map .leaf ∧ ∀ token ∈ tokens, token.symbol = .identifier
  | .statement _, tokens, nodes => OnePhrase .statement tokens nodes
  | .statements _, tokens, nodes => Phrases .statement tokens nodes

variable {input : Input} {starved : Int → Prop}

private theorem phrase_operand
    {tier : Tier} {calls : Bool} {tokens : List Token} {node : Node}
    (phrased : (tier.operand calls).Phrased tokens [node]) :
    Phrase tier.operandCategory tokens node := by
  cases tier <;>
    · obtain ⟨_, ⟨⟩, phrase⟩ := phrased
      exact phrase

/-- Every derivation is a phrase of the tokens that it passes. -/
theorem Reads.phrased
    {part : Part} {start finish : Int} {nodes : List Node}
    (reads : Reads input starved part start nodes finish) :
    ∃ tokens, input.Spells start tokens finish ∧ part.Phrased tokens nodes := by
  induction reads with
  | leafAtom standing => exact ⟨_, spells_singleton standing, _, rfl, .simple standing.2⟩
  | groupAtom _ group => exact group
  | group opening _ closing inner =>
      obtain ⟨tokens, spelled, _, ⟨⟩, phrase⟩ := inner
      have whole := (spells_cons opening spelled).append (spells_singleton closing)
      exact ⟨_, whole, _, rfl,
        .group (List.mem_singleton.mp opening.2) phrase (List.mem_singleton.mp closing.2)⟩
  | noAtoms _ => exact ⟨[], rfl, [], rfl, rfl, nofun⟩
  | moreAtoms _ _ first rest =>
      obtain ⟨tokens, spelled, _, ⟨⟩, phrase⟩ := first
      obtain ⟨more, spelledRest, phrases⟩ := rest
      exact ⟨tokens ++ more, spelled.append spelledRest, phrases.cons phrase⟩
  | call callee ahead derived arguments =>
      obtain ⟨_, spelled, parts, rfl, rfl, each⟩ := arguments
      have nonempty : parts ≠ [] := by
        rintro rfl
        cases derived with
        | noAtoms none => exact none ahead
      exact ⟨_, spells_cons callee spelled, _, rfl,
        .call (List.mem_singleton.mp callee.2) nonempty each⟩
  | atomTerm _ _ atom =>
      obtain ⟨tokens, spelled, node, same, phrase⟩ := atom
      exact ⟨tokens, spelled, node, same, .alone phrase⟩
  | conditionalTerm _ conditional => exact conditional
  | conditional keyword _ _ _ _ condition consequence alternative =>
      obtain ⟨first, spelledFirst, _, ⟨⟩, phraseFirst⟩ := condition
      obtain ⟨second, spelledSecond, _, ⟨⟩, phraseSecond⟩ := consequence
      obtain ⟨third, spelledThird, _, ⟨⟩, phraseThird⟩ := alternative
      have operands := spelledFirst.append (spelledSecond.append spelledThird)
      exact ⟨_, spells_cons keyword operands, _, rfl,
        .conditional (List.mem_singleton.mp keyword.2) phraseFirst phraseSecond phraseThird⟩
  | sign token _ operand =>
      obtain ⟨tokens, spelled, _, ⟨⟩, phrase⟩ := operand
      exact ⟨_, spells_cons token spelled, _, rfl, .sign token.2 phrase⟩
  | unsigned _ _ term =>
      obtain ⟨tokens, spelled, node, same, phrase⟩ := term
      exact ⟨tokens, spelled, node, same, .unsigned phrase⟩
  | chain _ _ first rest =>
      obtain ⟨tokens, spelled, phrased⟩ := first
      obtain ⟨more, spelledRest, lengthens⟩ := rest
      exact ⟨tokens ++ more, spelled.append spelledRest,
        lengthens tokens (.operand (phrase_operand phrased))⟩
  | noRest _ =>
      refine ⟨[], rfl, fun before phrase => ⟨_, rfl, ?_⟩⟩
      rwa [List.append_nil]
  | moreRest operator _ _ right rest =>
      obtain ⟨tokens, spelled, phrased⟩ := right
      obtain ⟨more, spelledRest, lengthens⟩ := rest
      refine ⟨_, (spells_cons operator spelled).append spelledRest, fun before phrase => ?_⟩
      rw [← List.append_assoc]
      exact lengthens _ (.joined phrase operator.2 (phrase_operand phrased))
  | noNames _ => exact ⟨[], rfl, rfl, nofun⟩
  | moreNames name _ rest =>
      obtain ⟨tokens, spelled, rfl, names⟩ := rest
      have isName := List.mem_singleton.mp name.2
      exact ⟨_, spells_cons name spelled, rfl, List.forall_mem_cons.mpr ⟨isName, names⟩⟩
  | functionDef keyword name _ equals _ parameters body =>
      obtain ⟨names, spelledNames, rfl, areNames⟩ := parameters
      obtain ⟨tokens, spelled, _, ⟨⟩, phrase⟩ := body
      have behind := spelledNames.append (spells_cons equals spelled)
      exact ⟨_, spells_cons keyword (spells_cons name behind), _, rfl,
        .functionDef (List.mem_singleton.mp keyword.2) (List.mem_singleton.mp name.2) areNames
          (List.mem_singleton.mp equals.2) phrase⟩
  | variableDecl keyword name equals _ value =>
      obtain ⟨tokens, spelled, _, ⟨⟩, phrase⟩ := value
      have behind := spells_cons name (spells_cons equals spelled)
      exact ⟨_, spells_cons keyword behind, _, rfl,
        .variableDecl (List.mem_singleton.mp keyword.2) (List.mem_singleton.mp name.2)
          (List.mem_singleton.mp equals.2) phrase⟩
  | outputStmt keyword _ value =>
      obtain ⟨tokens, spelled, _, ⟨⟩, phrase⟩ := value
      exact ⟨_, spells_cons keyword spelled, _, rfl,
        .outputStmt (List.mem_singleton.mp keyword.2) phrase⟩
  | noStatements _ => exact ⟨[], rfl, [], rfl, rfl, nofun⟩
  | moreStatements _ _ _ first rest =>
      obtain ⟨tokens, spelled, _, ⟨⟩, phrase⟩ := first
      obtain ⟨more, spelledRest, phrases⟩ := rest
      exact ⟨tokens ++ more, spelled.append spelledRest, phrases.cons phrase⟩

/-- A derived program is a phrase of the tokens up to one that ends the text. -/
theorem Derives.phrase
    {root : Node} (derives : Derives input starved root) :
    ∃ before position finish, input.Spells 0 before position ∧
      input.At position [.endOfText] finish ∧ Phrase .program (before ++ [finish]) root := by
  obtain ⟨_, position, finish, reads, standing, rfl⟩ := derives
  obtain ⟨_, spelled, parts, rfl, rfl, phrases⟩ := reads.phrased
  exact ⟨_, position, finish, spelled, standing,
    .program phrases (List.mem_singleton.mp standing.2)⟩

theorem Derives.exact {root : Node} (derives : Derives input starved root) : root.Exact := by
  obtain ⟨_, _, _, _, _, phrase⟩ := derives.phrase
  exact phrase.regular.2.exact

section Lists

variable {tokens : List Token} {path : Option String} {settings : Settings} {start finish : Int}
    {spelled : List Token}

theorem getElem?_of_tokenAt?
    {position : Int} {token : Token} (nonneg : 0 ≤ position) (inside : position < tokens.length)
    (found : (Input.mk tokens.toArray path settings).tokenAt? position = some token) :
    tokens[position.toNat]? = some token := by
  rwa [tokenAt?_toArray _ _ _ nonneg, if_pos inside] at found

/-- What stands from a position on is what the list of tokens holds from there on. -/
theorem Input.Spells.exists_rest
    (spells : (Input.mk tokens.toArray path settings).Spells start spelled finish)
    (nonneg : 0 ≤ start) (inside : finish ≤ tokens.length) :
    ∃ rest, tokens.drop start.toNat = spelled ++ rest := by
  induction spelled generalizing start with
  | nil => exact ⟨tokens.drop start.toNat, rfl⟩
  | cons token more inductionHypothesis =>
      obtain ⟨standing, behind⟩ := spells
      have length := behind.finish_eq
      obtain ⟨rest, remaining⟩ := inductionHypothesis behind (by omega)
      obtain ⟨bound, here⟩ := List.getElem?_eq_some_iff.mp
        (getElem?_of_tokenAt? nonneg (by omega) standing)
      have next : (start + 1).toNat = start.toNat + 1 := by omega
      rw [List.drop_eq_getElem_cons bound, here, ← next, remaining]
      exact ⟨rest, rfl⟩

/-- What the list of tokens holds stands where it holds it. -/
theorem spells_toArray (front spelled behind : List Token) :
    (Input.mk (front ++ (spelled ++ behind)).toArray path settings).Spells front.length spelled
      (front.length + spelled.length) := by
  induction spelled generalizing front with
  | nil => simp [Input.Spells]
  | cons token more inductionHypothesis =>
      have rest := inductionHypothesis (front ++ [token])
      rw [List.append_assoc, List.singleton_append, List.length_append] at rest
      have finish : (front.length : Int) + (token :: more).length =
          (front.length + [token].length : Nat) + more.length := by
        simp only [List.length_cons, List.length_nil]
        omega
      rw [finish]
      refine ⟨?_, rest⟩
      rw [tokenAt?_toArray _ _ _ (by omega), if_pos (by simp; omega)]
      simp

/-- A derived program is a phrase of the tokens up to the first that ends the text. -/
theorem Derives.exists_split
    (terminated : (Input.mk tokens.toArray path settings).Terminated) {root : Node}
    (derives : Derives ⟨tokens.toArray, path, settings⟩ starved root) :
    ∃ before finish behind, tokens = before ++ finish :: behind ∧
      (∀ token ∈ before, token.symbol ≠ .endOfText) ∧ finish.symbol = .endOfText ∧
        Phrase .program (before ++ [finish]) root := by
  obtain ⟨before, position, finish, spelled, standing, phrase⟩ := derives.phrase
  have noEnd := phrase.no_end_before
  have inside := spelled.finish_le_size terminated (Int.natCast_nonneg _) noEnd
  have position_eq := spelled.finish_eq
  simp only [List.size_toArray] at inside
  obtain ⟨rest, whole⟩ := spelled.exists_rest (Int.le_refl 0) inside
  rw [Int.toNat_zero, List.drop_zero] at whole
  have length := congrArg List.length whole
  cases rest with
  | nil =>
      -- Then the last token, which ends the text, would be one of those before the end.
      obtain ⟨last, isLast, isEnd⟩ := terminated
      have inTokens : last ∈ tokens := List.mem_of_getLast? (by simpa using isLast)
      rw [whole, List.append_nil] at inTokens
      exact absurd isEnd (noEnd last inTokens)
  | cons next behind =>
      rw [List.length_append, List.length_cons] at length
      have found := getElem?_of_tokenAt? (by omega) (by omega) standing.1
      have here : position.toNat = before.length := by omega
      rw [whole, here, List.getElem?_append_right (Nat.le_refl _), Nat.sub_self] at found
      cases found
      exact ⟨before, finish, behind, whole, noEnd, List.mem_singleton.mp standing.2, phrase⟩

end Lists

end RomanScript.Grammar

namespace RomanScript.Tree

open Grammar

/-- An accepted tree has the tokens up to the first that ends the text as its leaves, and each of
its branches was made by a rule of the grammar: its text joins the texts of its leaves, and it
begins where the first of them begins. -/
theorem ofTokens_shape
    {tokens : List Token} {path : Option String} {tree : Tree}
    (accepted : ofTokens tokens path = .ok tree) :
    (∃ before finish behind, tokens = before ++ finish :: behind ∧
      (∀ token ∈ before, token.symbol ≠ .endOfText) ∧ finish.symbol = .endOfText ∧
        tree.root.leaves = before ++ [finish]) ∧
      tree.root.IsBranch [.program] ∧
      ∀ node ∈ tree.root.walk, node.isLeaf = false →
        Node.Instance node.symbol node.children ∧
          node.text = String.join (node.leaves.map Token.text) ∧
            ∃ first, node.leaves.head? = some first ∧ node.line = first.line ∧
              node.column = first.column := by
  obtain ⟨finished, _, after, read⟩ := exists_of_ofTokensUnder_ok accepted
  have terminated := terminated_of_getLast? finished path .full
  have ended : Ends ⟨tokens.toArray, path, .full⟩ (fun _ => True) _ _ :=
    ends_program terminated (fun _ _ _ _ _ _ _ => trivial) Ready.start rfl rfl
  rw [read] at ended
  cases ended with
  | value _ derives =>
  obtain ⟨before, finish, behind, split, noEnd, isEnd, phrase⟩ := derives.exists_split terminated
  refine ⟨⟨before, finish, behind, split, noEnd, isEnd, phrase.leaves_eq⟩, phrase.regular.1, ?_⟩
  intro node member isBranch
  have regular := phrase.regular.2.walk node member
  cases node with
  | leaf token => cases isBranch
  | branch symbol text line column height children =>
      exact ⟨regular.made, regular.text_eq, regular.exists_first⟩

theorem ofTokens_shape_refusedCall :
    ∃ tree, ofTokens refusedCall none = .ok tree ∧
      (∃ before finish behind, refusedCall = before ++ finish :: behind ∧
        (∀ token ∈ before, token.symbol ≠ .endOfText) ∧ finish.symbol = .endOfText ∧
          tree.root.leaves = before ++ [finish]) ∧
        tree.root.IsBranch [.program] ∧
        ∀ node ∈ tree.root.walk, node.isLeaf = false →
          Node.Instance node.symbol node.children ∧
            node.text = String.join (node.leaves.map Token.text) ∧
              ∃ first, node.leaves.head? = some first ∧ node.line = first.line ∧
                node.column = first.column := by
  obtain ⟨root, accepted⟩ := exists_root_refusedCall
  exact ⟨⟨root, none⟩, accepted, ofTokens_shape accepted⟩

end RomanScript.Tree
