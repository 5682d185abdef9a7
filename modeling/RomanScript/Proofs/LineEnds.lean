import RomanScript.Proofs.Program.Violations
import RomanScript.Proofs.Spacing
import RomanScript.Proofs.Token.LineEnds

/-!
# Compiling texts with other line ends

A text and the same text with unified line ends, each under a path of its own, are both compiled to
a program, or the same problem is found behind the same characters.
-/

namespace RomanScript

variable {text : List Char} {tokens tokens' : List Token} {path path' : Option String}

private theorem Token.lexemes_of_unified
    (alike : List.Forall₂ (Token.Unified text) tokens tokens') :
    tokens.map Token.lexeme = tokens'.map Token.lexeme := by
  induction alike with
  | nil => rfl
  | cons same _ inductionHypothesis =>
      cases same with
      | intro => rw [List.map_cons, List.map_cons, inductionHypothesis]; rfl

/-- Problems at tokens of the same index are problems at corresponding places. -/
theorem Diagnostic.MovedBetween.unified
    {x y : Diagnostic} (moved : x.MovedBetween tokens tokens' path path' y)
    (alike : List.Forall₂ (Token.Unified text) tokens tokens') : x.Unified text path path' y := by
  cases moved with
  | intro problem paired =>
      obtain ⟨index, found, found'⟩ := paired.standing
      have same := Node.at_of_pointwise alike index
      rw [found, found'] at same
      cases same with
      | some same =>
          cases same with
          | intro _ _ places => exact .intro problem places

/-- What is reported under one path at a moved token is reported under another one, too. -/
theorem Diagnostic.Moved.between
    {x y : Diagnostic} (moved : x.Moved tokens tokens' path y) (path' : Option String) :
    x.MovedBetween tokens tokens' path path' { y with path := path' } := by
  cases moved with
  | intro problem paired => exact .intro problem paired

/-- A tree is lowered under every path, or its first violation is reported. -/
theorem Program.ofNode_verdicts
    {root : Node} (regular : root.Regular) (branch : root.IsBranch [.program])
    (legible : ∀ token ∈ root.leaves, token.Legible) :
    (∀ path, ∃ program, ofNode path root = .ok program) ∨
      ∃ violation : Violation, ∀ path,
        ofNode path root = .error (.diagnostic (violation.diagnostic path)) := by
  have reported (path : Option String) :
      Reports path (fun _ => True) (violationsOfProgram root) (ofNode path root) :=
    reports_ofNode regular branch legible
  generalize violationsOfProgram root = all at reported
  cases all with
  | nil =>
      left
      intro path
      have reported := reported path
      generalize ofNode path root = result at reported
      cases reported with
      | value _ => exact ⟨_, rfl⟩
  | cons violation rest =>
      right
      refine ⟨violation, fun path => ?_⟩
      have reported := reported path
      generalize ofNode path root = result at reported
      cases reported with
      | first => rfl

namespace Compilation

/-- Two programs, or the same problem at corresponding places. -/
inductive Unified (text : List Char) (path path' : Option String) :
    Compilation → Compilation → Prop
  | program (program program' : Program) :
      Unified text path path' ⟨some program, none⟩ ⟨some program', none⟩
  | diagnostic {x y : Diagnostic} :
      x.Unified text path path' y → Unified text path path' ⟨none, some x⟩ ⟨none, some y⟩

/-- A text and the same text with unified line ends get the same verdict, whatever their paths. -/
theorem ofSource_unified
    {table : Keyword.Table} (spelled : table.Spelled) (text : String) (path path' : Option String) :
    ∃ compilation log compilation' log',
      ofSource table text path = .ok (compilation, log) ∧
        ofSource table (String.ofList (Text.unifyLineEnds text.toList)) path' =
          .ok (compilation', log') ∧
        Unified text.toList path path' compilation compilation' := by
  have unifies := Token.scan_unifies spelled text path path'
  have scans := Token.scanned_scan table text path
  have scans' := Token.scanned_scan table (String.ofList (Text.unifyLineEnds text.toList)) path'
  unfold ofSource
  generalize Token.scan table text path = outcome at unifies scans ⊢
  generalize Token.scan table (String.ofList (Text.unifyLineEnds text.toList)) path' = outcome'
    at unifies scans' ⊢
  cases unifies with
  | diagnostic alike => exact ⟨_, _, _, _, rfl, rfl, .diagnostic alike⟩
  | @tokens tokens tokens' alike =>
      obtain ⟨finished, legible⟩ := scans
      obtain ⟨_, legible'⟩ := scans'
      have moved := Tree.movedBetween_ofTokens finished (Token.lexemes_of_unified alike) path path'
      dsimp only
      generalize parsed : Tree.ofTokens tokens path = result at moved
      generalize parsed' : Tree.ofTokens tokens' path' = result' at moved
      cases moved with
      | diagnostic moved => exact ⟨_, _, _, _, rfl, rfl, .diagnostic (moved.unified alike)⟩
      | value trees =>
          obtain ⟨_, _, movedRoots⟩ := trees
          obtain ⟨root, rfl, regular, branch, _⟩ := Tree.exists_of_ofTokens legible parsed
          obtain ⟨root', rfl, regular', branch', legibleLeaves⟩ :=
            Tree.exists_of_ofTokens legible' parsed'
          have moved := Program.moved_ofNode regular branch movedRoots path
          dsimp only [Program.ofTree]
          generalize Program.ofNode path root = lowered at moved ⊢
          rcases Program.ofNode_verdicts regular' branch' legibleLeaves with
            isLowered | ⟨violation, isRefused⟩
          · obtain ⟨program, isProgram⟩ := isLowered path
            obtain ⟨program', isProgram'⟩ := isLowered path'
            rw [isProgram] at moved
            rw [isProgram']
            cases moved with
            | value _ => exact ⟨_, _, _, _, rfl, rfl, .program _ _⟩
          · rw [isRefused path] at moved
            rw [isRefused path']
            cases moved with
            | diagnostic moved =>
                exact ⟨_, _, _, _, rfl, rfl, .diagnostic ((moved.between path').unified alike)⟩

end Compilation

end RomanScript
