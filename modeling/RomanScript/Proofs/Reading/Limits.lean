import RomanScript.Proofs.Reading.Completeness
import RomanScript.Proofs.Reading.Unrefused

/-!
# Limits

What becomes of a text that is read within the limits when there are none. As long as no limit is
crossed nothing changes. Otherwise a limit may have been crossed by the operands of a conditional,
which were then read without calls; the tree is read again only if that had to happen anyway.
-/

namespace RomanScript.Grammar

variable {input : Input}

/-- Where no limits are set, memory goes unnoticed. -/
theorem program_eq_forgetful_of_unlimited
    (terminated : input.Terminated) (unlimited : input.settings.limited = false) :
    (program input State.start).1 = (program input.forgetful State.start).1 := by
  have grown : Grows input.forgetful State.start (program input.forgetful State.start).2 :=
    Keeps.grows _
  obtain ⟨added, memory, unrefused⟩ := grown.memory
  refine program_eq_forgetful terminated (steady_of_unrefused fun entry member => ?_)
  rw [memory] at member
  rcases List.mem_append.mp member with isNew | isOld
  · exact unrefused unlimited entry isNew
  · exact absurd isOld List.not_mem_nil

end RomanScript.Grammar

namespace RomanScript.Tree

open Grammar

/-- If no limit is crossed, the outcome is the same without limits, whether it is a tree or a
diagnostic. -/
theorem ofTokens_eq_unlimited
    (tokens : List Token) (path : Option String)
    (unrefused : (program ⟨tokens.toArray, path, .full⟩ State.start).2.refusals = 0) :
    ofTokensUnder ⟨true, false⟩ tokens path = ofTokens tokens path := by
  by_cases finished : (tokens.getLast?.map (·.symbol)) = some .endOfText
  · have limited := program_eq_free_of_unrefused (terminated_of_getLast? finished path .full)
      unrefused
    have unlimited := program_eq_forgetful_of_unlimited
      (terminated_of_getLast? finished path ⟨true, false⟩) rfl
    rw [ofTokens, ofTokensUnder_of_finished finished, ofTokensUnder_of_finished finished, limited,
      unlimited]
    rfl
  · unfold ofTokens ofTokensUnder
    rw [if_neg finished, if_neg finished]

/-- Without limits a tree is read exactly if it is derived so that the operands of every conditional
that is read without calls cannot be read with them. -/
theorem ofTokens_unlimited_iff
    {tokens : List Token} {path : Option String}
    (finished : (tokens.getLast?.map (·.symbol)) = some .endOfText) (root : Node) :
    ofTokensUnder ⟨true, false⟩ tokens path = .ok ⟨root, path⟩ ↔
      Derives ⟨tokens.toArray, path, ⟨false, false⟩⟩
        (Starved ⟨tokens.toArray, path, ⟨false, false⟩⟩) root := by
  have same := program_eq_forgetful_of_unlimited
    (terminated_of_getLast? finished path ⟨true, false⟩) rfl
  have derived := program_iff_derives
    (terminated_of_getLast? finished path ⟨false, false⟩) rfl rfl root
  change _ = (program ⟨tokens.toArray, path, ⟨false, false⟩⟩ State.start).1 at same
  rw [ofTokensUnder_of_finished finished, same, ← derived]
  generalize (program ⟨tokens.toArray, path, ⟨false, false⟩⟩ State.start).1 = result
  constructor
  · intro read
    cases result with
    | error failure => cases read
    | ok other =>
        cases read
        rfl
  · intro read
    rw [read]
    rfl

/-- A tree that is read within the limits is read without them if none of them was crossed. In any
case it is exactly if the operands of every conditional that was read without calls cannot be read
with them. -/
theorem ofTokens_within_and_without_limits
    {tokens : List Token} {path : Option String} {root : Node}
    (accepted : ofTokens tokens path = .ok ⟨root, path⟩) :
    ((program ⟨tokens.toArray, path, .full⟩ State.start).2.refusals = 0 →
        ofTokensUnder ⟨true, false⟩ tokens path = .ok ⟨root, path⟩) ∧
      (ofTokensUnder ⟨true, false⟩ tokens path = .ok ⟨root, path⟩ ↔
        Derives ⟨tokens.toArray, path, ⟨false, false⟩⟩
          (Starved ⟨tokens.toArray, path, ⟨false, false⟩⟩) root) := by
  obtain ⟨finished, _⟩ := exists_of_ofTokensUnder_ok accepted
  refine ⟨fun unrefused => ?_, ofTokens_unlimited_iff finished root⟩
  rw [ofTokens_eq_unlimited tokens path unrefused, accepted]

/-- A conditional of which the first operand would take the second one, as many groups as may be
nested there, for an argument, so that the third would be missing. -/
def deepArgument : List Token :=
  Token.row ([(.keyword .output, "Grafo"), (.keyword .choose, "Sinon"), (.identifier, "x")] ++
    List.replicate 62 (.openParen, "(") ++ (.numeral, "I") :: List.replicate 62 (.closeParen, ")") ++
    [(.minus, "-"), (.identifier, "y"), (.identifier, "y"), (.endOfText, "")])

theorem ofTokens_within_and_without_limits_deepArgument :
    ∃ root, ofTokens deepArgument none = .ok ⟨root, none⟩ ∧
      (program ⟨deepArgument.toArray, none, .full⟩ State.start).2.refusals = 0 ∧
      ofTokensUnder ⟨true, false⟩ deepArgument none = .ok ⟨root, none⟩ ∧
        Derives ⟨deepArgument.toArray, none, ⟨false, false⟩⟩
          (Starved ⟨deepArgument.toArray, none, ⟨false, false⟩⟩) root := by
  have isOk : (ofTokens deepArgument none).isOk = true := by decide +kernel
  have unrefused : (program ⟨deepArgument.toArray, none, .full⟩ State.start).2.refusals = 0 := by
    decide +kernel
  obtain ⟨root, accepted⟩ := exists_root_of_isOk isOk
  obtain ⟨unlimited, derived⟩ := ofTokens_within_and_without_limits accepted
  have read := unlimited unrefused
  exact ⟨root, accepted, unrefused, read, derived.mp read⟩

theorem not_ofTokens_unlimited :
    ¬ ∀ (tokens : List Token) (tree : Tree),
      ofTokens tokens none = .ok tree → ofTokensUnder ⟨true, false⟩ tokens none = .ok tree := by
  intro unlimited
  have rejected : (ofTokensUnder ⟨true, false⟩ refusedCall none).isOk = false := by decide +kernel
  obtain ⟨root, accepted⟩ := exists_root_refusedCall
  rw [unlimited refusedCall ⟨root, none⟩ accepted] at rejected
  cases rejected

end RomanScript.Tree
