import RomanScript.Proofs.Reading.Bounds
import RomanScript.Proofs.Reading.Taking

/-!
# Which programs are accepted

Without conditionals the grammar is unambiguous, and exactly those programs are accepted that it
derives within the limits.
-/

namespace RomanScript.Node

open Grammar

/-- No node of the expression of a statement is nested more deeply or is higher than allowed, as
the tree itself tells. -/
def RespectsLimits (root : Node) : Prop :=
  ∀ statement ∈ root.statements, ∃ expression, statement.expression? = some expression ∧
    ∀ entry ∈ expression.levelled 1,
      entry.1 ≤ nestingLimit ∧ entry.2.trueHeight ≤ heightLimit

private theorem Exact.of_statement
    {root statement expression : Node} (exact : root.Exact) (member : statement ∈ root.statements)
    (ends : statement.expression? = some expression) : expression.Exact :=
  (exact.child (List.mem_filter.mp member).1).expression ends

end RomanScript.Node

namespace RomanScript.Grammar

open Reading

/-- The first token that ends the text is found in one way only. -/
theorem first_end_unique
    {before before' behind behind' : List Token} {finish finish' : Token}
    (noEnd : ∀ token ∈ before, token.symbol ≠ .endOfText) (isEnd : finish.symbol = .endOfText)
    (noEnd' : ∀ token ∈ before', token.symbol ≠ .endOfText) (isEnd' : finish'.symbol = .endOfText)
    (same : before ++ finish :: behind = before' ++ finish' :: behind') :
    before = before' ∧ finish = finish' := by
  have taken := congrArg (List.takeWhile fun token => token.symbol != .endOfText) same
  rw [List.takeWhile_append_of_pos (by simpa using noEnd),
    List.takeWhile_append_of_pos (by simpa using noEnd'),
    List.takeWhile_cons_of_neg (by simp [isEnd]), List.takeWhile_cons_of_neg (by simp [isEnd']),
    List.append_nil, List.append_nil] at taken
  subst taken
  exact ⟨rfl, (List.cons.inj (List.append_cancel_left same)).1⟩

section Texts

variable {before behind : List Token} {finish : Token} {path : Option String} {root : Node}

private theorem spells_before (settings : Settings) :
    (Input.mk (before ++ finish :: behind).toArray path settings).Spells 0 before
      before.length := by
  simpa using spells_toArray [] before (finish :: behind)

theorem at_finish (settings : Settings) (isEnd : finish.symbol = .endOfText) :
    (Input.mk (before ++ finish :: behind).toArray path settings).At before.length
      [.endOfText] finish := by
  have inside : (before.length : Int) < (before ++ finish :: behind).length := by
    rw [List.length_append, List.length_cons]
    omega
  refine ⟨?_, List.mem_singleton.mpr isEnd⟩
  rw [tokenAt?_toArray _ _ _ (Int.natCast_nonneg _), if_pos inside]
  simp

private theorem exists_program_of_plain
    {settings : Settings}
    (terminated : (Input.mk (before ++ finish :: behind).toArray path settings).Terminated)
    (plain : ∀ token ∈ before, token.symbol ≠ .keyword .choose)
    (phrase : Phrase .program (before ++ [finish]) root)
    (respects : settings.limited = true → root.RespectsLimits) :
    ∃ after, program ⟨(before ++ finish :: behind).toArray, path, settings⟩ State.start =
      (.ok root, after) := by
  refine exists_program_of_phrase terminated phrase (spells_before settings)
    (at_finish settings phrase.exists_statements.1) plain ?_
  intro statement member expression ends limited
  obtain ⟨other, isOther, within⟩ := respects limited statement member
  cases ends.symm.trans isOther
  exact (phrase.regular.2.exact.of_statement member ends).within_iff.mpr within

/-- Without conditionals, tokens have at most one tree. -/
theorem Phrase.unique
    {other : Node} (plain : ∀ token ∈ before, token.symbol ≠ .keyword .choose)
    (phrase : Phrase .program (before ++ [finish]) root)
    (again : Phrase .program (before ++ [finish]) other) : root = other := by
  have terminated : (Input.mk (before ++ [finish]).toArray none ⟨true, false⟩).Terminated :=
    ⟨finish, by simp, phrase.exists_statements.1⟩
  -- Both trees are what one and the same run gives, in which no limit counts.
  obtain ⟨after, read⟩ := exists_program_of_plain terminated plain phrase nofun
  obtain ⟨_, readAgain⟩ := exists_program_of_plain terminated plain again nofun
  cases read.symm.trans readAgain
  rfl

/-- What is read is a phrase that respects the limits. -/
theorem phrase_of_program
    {after : State} (isEnd : finish.symbol = .endOfText)
    (noEnd : ∀ token ∈ before, token.symbol ≠ .endOfText)
    (terminated : (Input.mk (before ++ finish :: behind).toArray path .full).Terminated)
    (read : program ⟨(before ++ finish :: behind).toArray, path, .full⟩ State.start =
      (.ok root, after)) :
    Phrase .program (before ++ [finish]) root ∧ root.RespectsLimits := by
  have derived : Ends ⟨(before ++ finish :: behind).toArray, path, .full⟩ (fun _ => True) _ _ :=
    ends_program terminated (fun _ _ _ _ _ _ _ => trivial) Ready.start rfl rfl
  have fresh : Before State.start.memory State.start.position := fun _ member =>
    absurd member List.not_mem_nil
  have left := leaves_program terminated rfl (Int.le_refl 0 : 0 ≤ State.start.nesting) fresh
  rw [read] at derived left
  cases derived with
  | value _ derives =>
  cases left with
  | value _ _ limits =>
  obtain ⟨_, _, _, same, noEnd', isEnd', phrase⟩ := derives.exists_split terminated
  obtain ⟨rfl, rfl⟩ := first_end_unique noEnd isEnd noEnd' isEnd' same
  refine ⟨phrase, fun statement member => ?_⟩
  obtain ⟨expression, ends, within, _⟩ := limits.2 statement member
  exact ⟨expression, ends,
    (phrase.regular.2.exact.of_statement member ends).within_iff.mp within⟩

end Texts

end RomanScript.Grammar

namespace RomanScript.Tree

open Grammar

/-- Statements that are read and respect the limits make a tree, with the end of the text. -/
theorem ofTokens_of_read
    {statements : List (List Token × Node)} {finish : Token} (path : Option String)
    (read : ∀ statement ∈ statements, Read .statement statement.1 statement.2)
    (isEnd : finish.symbol = .endOfText)
    (within : ∀ statement ∈ statements, ∀ expression,
      statement.2.expression? = some expression → expression.Within 1) :
    ofTokens (statements.flatMap (·.1) ++ [finish]) path =
      .ok ⟨.rule .program (statements.map (·.2) ++ [.leaf finish]), path⟩ := by
  have finished : ((statements.flatMap (·.1) ++ [finish]).getLast?.map (·.symbol)) =
      some .endOfText := by
    simp [isEnd]
  obtain ⟨after, read⟩ := exists_program_of_statements read (at_finish .full isEnd)
    (terminated_of_getLast? finished path .full) (spells_before .full)
    fun statement member expression ends _ => within statement member expression ends
  rw [ofTokens, ofTokensUnder_of_finished finished, read]
  rfl

/-- Tokens without conditionals are accepted exactly if they are a program within the limits, and
then the tree is the only one that they have. -/
theorem ofTokens_iff_phrase
    {before behind : List Token} {finish : Token} (path : Option String)
    (noEnd : ∀ token ∈ before, token.symbol ≠ .endOfText)
    (plain : ∀ token ∈ before, token.symbol ≠ .keyword .choose)
    (isEnd : finish.symbol = .endOfText)
    (finished : ((before ++ finish :: behind).getLast?.map (·.symbol)) = some .endOfText) :
    (∀ tree, ofTokens (before ++ finish :: behind) path = .ok tree ↔
      tree.path = path ∧ Phrase .program (before ++ [finish]) tree.root ∧
        tree.root.RespectsLimits) ∧
      ∀ root other, Phrase .program (before ++ [finish]) root →
        Phrase .program (before ++ [finish]) other → root = other := by
  have terminated := terminated_of_getLast? finished path .full
  refine ⟨fun tree => ⟨fun accepted => ?_, ?_⟩, fun root other => Phrase.unique plain⟩
  · obtain ⟨_, samePath, after, read⟩ := exists_of_ofTokensUnder_ok accepted
    exact ⟨samePath, phrase_of_program isEnd noEnd terminated read⟩
  · rintro ⟨rfl, phrase, respects⟩
    obtain ⟨after, read⟩ := exists_program_of_plain terminated plain phrase fun _ => respects
    rw [ofTokens, ofTokensUnder_of_finished finished, read]
    rfl

/-- A function of two parameters and a call of it, beneath a sign and with a signed number in
parentheses among its arguments. -/
def signedCall : List Token :=
  Token.row [(.keyword .define, "Munus"), (.identifier, "f"), (.identifier, "x"),
    (.identifier, "y"), (.equals, "="), (.identifier, "x"), (.minus, "-"), (.identifier, "y"),
    (.times, "*"), (.identifier, "x"), (.keyword .output, "Grafo"), (.minus, "-"),
    (.identifier, "f"), (.openParen, "("), (.plus, "+"), (.numeral, "I"), (.closeParen, ")"),
    (.numeral, "II"), (.divide, "/"), (.keyword .input, "Anagnosi"), (.endOfText, "")]

theorem ofTokens_iff_phrase_signedCall :
    ∃ root, ofTokens signedCall none = .ok ⟨root, none⟩ ∧
      Phrase .program signedCall root ∧ root.RespectsLimits ∧
        ∀ other, Phrase .program signedCall other → other = root := by
  have isOk : (ofTokens signedCall none).isOk = true := by decide +kernel
  obtain ⟨root, accepted⟩ := exists_root_of_isOk isOk
  have outcome := @ofTokens_iff_phrase (signedCall.take 20) [] ⟨.endOfText, "", 1, 20⟩ none
    (by decide) (by decide) rfl rfl
  obtain ⟨_, phrase, respects⟩ := (outcome.1 ⟨root, none⟩).mp accepted
  exact ⟨root, accepted, phrase, respects, fun other again => outcome.2 other root again phrase⟩

end RomanScript.Tree
