import RomanScript.Compilation
import RomanScript.Proofs.Program.Inscribed
import RomanScript.Proofs.Program.Moved
import RomanScript.Proofs.Program.Regained
import RomanScript.Proofs.Reading.Moved

/-!
# Programs are regained from writing

A program that can be written is compiled from its text to itself. Its tokens do not stand in the
text at the places where they were read to its tree, but only diagnostics depend on places.
-/

namespace RomanScript.Program

variable {program : Program}

/-- The tree of a program that can be written has the shape that the grammar asks for. -/
theorem Writable.regular_root (writable : program.Writable) :
    program.root.IsBranch [.program] ∧ program.root.Regular := by
  have phrase : Grammar.Phrase .program program.tokens program.root :=
    .program (fun statement member => (writable.readStatements statement member).phrase) rfl
  exact phrase.regular

/-- The text of a program that can be written is compiled to the program. -/
theorem ofSource_text (writable : program.Writable) (path : Option String) :
    ∃ log, Compilation.ofSource .usual program.text path = .ok (⟨some program, none⟩, log) := by
  obtain ⟨tokens, scanned, lexemes⟩ := writable.exists_tokens path
  have finished : (program.tokens.getLast?.map (·.symbol)) = some .endOfText := by
    simp [Program.tokens, Token.unplaced]
  obtain ⟨branch, regular⟩ := writable.regular_root
  have parsed := Tree.moved_ofTokens finished lexemes path
  rw [writable.ofTokens path] at parsed
  unfold Compilation.ofSource
  rw [scanned]
  dsimp only
  generalize Tree.ofTokens tokens path = result at parsed ⊢
  cases parsed with
  | @value _ tree moved =>
      obtain ⟨_, samePath, movedRoots⟩ := moved
      have lowered := moved_ofNode regular branch movedRoots path
      rw [writable.ofNode_root path] at lowered
      dsimp only [ofTree]
      rw [samePath]
      generalize ofNode path tree.root = result at lowered ⊢
      cases lowered with
      | value same =>
          cases same
          exact ⟨_, rfl⟩

def twoFunctions : Program where
  functions := [⟨"zero", [], .literal 0⟩, ⟨"f", ["n"],
    .conditional (.variable "n") (.call "zero" [])
      (.binary .mul (.variable "n") (.unary .sub .input))⟩]
  statements := [.declaration "x" (.literal 14), .output (.call "f" [.variable "x"])]

private theorem writable_twoFunctions : twoFunctions.Writable where
  valid := by
    have lowered : ofNode none twoFunctions.root = .ok twoFunctions := by rfl
    obtain ⟨bodies, comes⟩ := comes_of_ok lowered
    exact valid_of_comes comes
  names := by decide
  signs := by
    simp [twoFunctions, expressions, Statement.value, Expression.parts, Expression.partsOfAll]
  unhidden := by
    simp [twoFunctions, Expression.parts, Expression.partsOfAll]
  low := by
    simp [twoFunctions, expressions, Statement.value, Expression.height, Expression.heightOfAll]

theorem ofSource_text_twoFunctions :
    twoFunctions.text =
        "Munus zero = N\n" ++ "Munus f n = Sinon (n) (zero) ((n) * (- (Anagnosi)))\n" ++
          "As x = XIV\n" ++ "Grafo f (x)" ∧
      twoFunctions.Writable ∧
        ∃ log, Compilation.ofSource .usual twoFunctions.text none =
          .ok (⟨some twoFunctions, none⟩, log) :=
  ⟨by decide +kernel, writable_twoFunctions, ofSource_text writable_twoFunctions none⟩

end RomanScript.Program
