import RomanScript.Compilation
import RomanScript.Proofs.Program.Judged
import RomanScript.Proofs.Reading.Blame
import RomanScript.Proofs.Reading.Phrased

/-!
# Compiling is total

Each stage hands to the next what it can work on: scanned tokens end and have legible numerals, and
trees of tokens are made by the rules of the grammar. So every text has a program or a diagnostic,
and the diagnostic is the one of the first stage that fails.
-/

namespace RomanScript

open Grammar

/-- A tree that the rules of the grammar make of some tokens, or a diagnostic that blames one of
them. -/
inductive Tree.Parsed (tokens : List Token) (path : Option String) : Except Failure Tree → Prop
  | tree {root : Node} :
      root.Regular → root.IsBranch [.program] → root.leaves ⊆ tokens →
      Tree.Parsed tokens path (.ok ⟨root, path⟩)
  | diagnostic {diagnostic : Diagnostic} :
      Input.Blames ⟨tokens.toArray, path, .full⟩ diagnostic →
      Tree.Parsed tokens path (.error (.diagnostic diagnostic))

theorem Tree.parsed_ofTokens
    {tokens : List Token} (finished : (tokens.getLast?.map (·.symbol)) = some .endOfText)
    (path : Option String) : Tree.Parsed tokens path (ofTokens tokens path) := by
  have terminated := terminated_of_getLast? finished path .full
  rcases ofTokensUnder_cases finished
    (fun _ _ _ _ _ _ _ => trivial : Starves ⟨tokens.toArray, path, .full⟩ fun _ => True) with
    ⟨root, accepted, derives⟩ | ⟨diagnostic, refused⟩
  · obtain ⟨before, finish, behind, split, _, _, phrase⟩ := derives.exists_split terminated
    rw [ofTokens, accepted]
    refine .tree phrase.regular.2 phrase.regular.1 ?_
    rw [phrase.leaves_eq, split]
    simp
  · rw [ofTokens, refused]
    rw [ofTokensUnder_of_finished finished] at refused
    refine .diagnostic ?_
    generalize read : program ⟨tokens.toArray, path, .full⟩ State.start = outcome at refused
    rcases outcome with ⟨failure | root, after⟩
    · cases refused
      exact blames_program read
    · cases refused

/-- What legible tokens are read to is made by the rules of the grammar from legible tokens. -/
theorem Tree.exists_of_ofTokens
    {tokens : List Token} {path : Option String} {tree : Tree}
    (legible : ∀ token ∈ tokens, token.Legible) (parsed : ofTokens tokens path = .ok tree) :
    ∃ root, tree = ⟨root, path⟩ ∧ root.Regular ∧ root.IsBranch [.program] ∧
      ∀ token ∈ root.leaves, token.Legible := by
  obtain ⟨finished, _⟩ := exists_of_ofTokensUnder_ok parsed
  have parses := parsed_ofTokens finished path
  rw [parsed] at parses
  cases parses with
  | @tree root regular branch included =>
      exact ⟨root, rfl, regular, branch, fun token member => legible token (included member)⟩

namespace Compilation

/-- A failure is the diagnostic of a stage, and the one that was given. -/
def Reports (compilation : Compilation) (stage : Stage) (failure : Failure) : Prop :=
  ∃ diagnostic, failure = .diagnostic diagnostic ∧ compilation.diagnostic = some diagnostic ∧
    diagnostic.stage = some stage

/-- The stages of reading a text, as a compilation shows them: the diagnostic is that of the first
stage that fails, and the program is there if none does. -/
structure Stages (table : Keyword.Table) (source : String) (path : Option String)
    (compilation : Compilation) : Prop where
  exclusive : compilation.program.isSome = !compilation.diagnostic.isSome
  lexical (diagnostic : Diagnostic) :
    compilation.Reports .lexical (.diagnostic diagnostic) ↔
      Token.scan table source path = .error diagnostic
  grammatical (failure : Failure) :
    compilation.Reports .grammatical failure ↔
      ∃ tokens, Token.scan table source path = .ok tokens ∧
        Tree.ofTokens tokens path = .error failure
  semantic (failure : Failure) :
    compilation.Reports .semantic failure ↔
      ∃ tokens tree, Token.scan table source path = .ok tokens ∧
        Tree.ofTokens tokens path = .ok tree ∧ Program.ofTree tree = .error failure
  program (program : Program) :
    compilation.program = some program ↔
      ∃ tokens tree, Token.scan table source path = .ok tokens ∧
        Tree.ofTokens tokens path = .ok tree ∧ Program.ofTree tree = .ok program
  unwrap_ok (program : Program) :
    compilation.unwrap = .ok program ↔ compilation.program = some program
  unwrap_error (failure : Failure) :
    compilation.unwrap = .error failure ↔
      ∃ diagnostic, failure = .diagnostic diagnostic ∧ compilation.diagnostic = some diagnostic

variable {table : Keyword.Table} {source : String} {path : Option String}

private theorem stages_of_scan
    {diagnostic : Diagnostic} (failed : Token.scan table source path = .error diagnostic)
    (stage : diagnostic.stage = some .lexical) :
    Stages table source path ⟨none, some diagnostic⟩ := by
  constructor <;> simp [Reports, failed, stage, unwrap, eq_comm]

private theorem stages_of_ofTokens
    {tokens : List Token} {diagnostic : Diagnostic}
    (scanned : Token.scan table source path = .ok tokens)
    (failed : Tree.ofTokens tokens path = .error (.diagnostic diagnostic))
    (stage : diagnostic.stage = some .grammatical) :
    Stages table source path ⟨none, some diagnostic⟩ := by
  constructor <;> simp [Reports, scanned, failed, stage, unwrap, eq_comm]

private theorem stages_of_ofTree
    {tokens : List Token} {tree : Tree} {diagnostic : Diagnostic}
    (scanned : Token.scan table source path = .ok tokens)
    (parsed : Tree.ofTokens tokens path = .ok tree)
    (failed : Program.ofTree tree = .error (.diagnostic diagnostic))
    (stage : diagnostic.stage = some .semantic) :
    Stages table source path ⟨none, some diagnostic⟩ := by
  constructor <;> simp [Reports, scanned, parsed, failed, stage, unwrap, eq_comm]

private theorem stages_of_program
    {tokens : List Token} {tree : Tree} {program : Program}
    (scanned : Token.scan table source path = .ok tokens)
    (parsed : Tree.ofTokens tokens path = .ok tree)
    (lowered : Program.ofTree tree = .ok program) :
    Stages table source path ⟨some program, none⟩ := by
  constructor <;> simp [Reports, scanned, parsed, lowered, unwrap]

/-- Every text is compiled, whatever the table of keywords, to a program or to the diagnostic of the
first stage that fails. -/
theorem exists_ofSource (table : Keyword.Table) (source : String) (path : Option String) :
    ∃ compilation log, ofSource table source path = .ok (compilation, log) ∧
      Stages table source path compilation := by
  unfold ofSource
  have scans := Token.scanned_scan table source path
  cases scanned : Token.scan table source path with
  | error diagnostic =>
      rw [scanned] at scans
      exact ⟨_, _, rfl, stages_of_scan scanned scans.1⟩
  | ok tokens =>
      rw [scanned] at scans
      obtain ⟨finished, legible⟩ := scans
      -- The stages hand on what the next one needs: an end and legible tokens, a regular tree.
      have parses := Tree.parsed_ofTokens finished path
      dsimp only
      generalize parsed : Tree.ofTokens tokens path = tree at parses
      cases parses with
      | diagnostic blames => exact ⟨_, _, rfl, stages_of_ofTokens scanned parsed blames.stage⟩
      | @tree root regular branch included =>
          have judged : Program.Judged path root.leaves (Program.ofTree ⟨root, path⟩) :=
            Program.judged_ofNode regular branch fun token member =>
              legible token (included member)
          dsimp only
          generalize lowered : Program.ofTree ⟨root, path⟩ = result at judged
          cases judged with
          | value program => exact ⟨_, _, rfl, stages_of_program scanned parsed lowered⟩
          | problem _ _ concerns =>
              exact ⟨_, _, rfl, stages_of_ofTree scanned parsed lowered concerns.stage⟩

/-- How far the stages of reading a text come: each one works on what the one before it gave, up to
the first that has a diagnostic. -/
inductive Course (table : Keyword.Table) (source : String) (path : Option String) : Prop
  | lexical {diagnostic : Diagnostic} :
      Token.scan table source path = .error diagnostic → Course table source path
  | grammatical {tokens : List Token} {diagnostic : Diagnostic} :
      Token.scan table source path = .ok tokens →
      Tree.ofTokens tokens path = .error (.diagnostic diagnostic) → Course table source path
  | semantic {tokens : List Token} {tree : Tree} {diagnostic : Diagnostic} :
      Token.scan table source path = .ok tokens → Tree.ofTokens tokens path = .ok tree →
      Program.ofTree tree = .error (.diagnostic diagnostic) → Course table source path
  | complete {tokens : List Token} {tree : Tree} {program : Program} :
      Token.scan table source path = .ok tokens → Tree.ofTokens tokens path = .ok tree →
      Program.ofTree tree = .ok program → Course table source path

/-- No stage is ever handed what it cannot work on. -/
theorem course (table : Keyword.Table) (source : String) (path : Option String) :
    Course table source path := by
  have scans := Token.scanned_scan table source path
  cases scanned : Token.scan table source path with
  | error diagnostic => exact .lexical scanned
  | ok tokens =>
      rw [scanned] at scans
      obtain ⟨finished, legible⟩ := scans
      have parses := Tree.parsed_ofTokens finished path
      generalize parsed : Tree.ofTokens tokens path = tree at parses
      cases parses with
      | diagnostic blames => exact .grammatical scanned parsed
      | @tree root regular branch included =>
          have judged : Program.Judged path root.leaves (Program.ofTree ⟨root, path⟩) :=
            Program.judged_ofNode regular branch fun token member =>
              legible token (included member)
          generalize lowered : Program.ofTree ⟨root, path⟩ = result at judged
          cases judged with
          | value program => exact .complete scanned parsed lowered
          | problem => exact .semantic scanned parsed lowered

end Compilation

end RomanScript
