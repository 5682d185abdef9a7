import RomanScript.Proofs.Spacing
import RomanScript.Proofs.Token.Stop

/-!
# What a diagnostic points at

A diagnostic stands where its cause stands: at the character or the run of numeral letters that it
quotes, at the token that was not expected, or at the name that is wrong. It carries the path that
was given.
-/

namespace RomanScript

/-- What a diagnostic about a text points at, and how it names it there. -/
inductive Culprit (table : Keyword.Table) (source : String) (path : Option String) :
    Diagnostic → Prop
  | character {before behind : List Char} {char : Char} :
      source.toList = before ++ char :: behind →
      Culprit table source path
        ⟨.unexpectedCharacter char, (Token.Place.after before).line,
          (Token.Place.after before).column, path⟩
  | numeral {before run behind : List Char} :
      source.toList = before ++ (run ++ behind) → run ≠ [] →
      (∀ char ∈ run, Numeral.isNumeralLetter char = true) →
      behind.head?.any Numeral.isNumeralLetter = false →
      (table.EndsApart → before.getLast?.any Numeral.isNumeralLetter = false) →
      Culprit table source path
        ⟨.malformedNumeral (String.ofList run), (Token.Place.after before).line,
          (Token.Place.after before).column, path⟩
  | token {tokens : List Token} {token : Token} (wanted : String) :
      Token.scan table source path = .ok tokens → token ∈ tokens →
      Culprit table source path
        ⟨.unexpectedToken wanted token.symbol token.text, token.line, token.column, path⟩
  | limit {tokens : List Token} {token : Token} (limit : Nat) :
      Token.scan table source path = .ok tokens → token ∈ tokens →
      Culprit table source path ⟨.tooDeep limit, token.line, token.column, path⟩
  | name {tokens : List Token} {token : Token} {problem : Problem} :
      Token.scan table source path = .ok tokens → token ∈ tokens →
      token.symbol = .identifier → problem.Concerns token.text →
      Culprit table source path ⟨problem, token.line, token.column, path⟩

variable {table : Keyword.Table} {source : String} {path : Option String}

private theorem Culprit.path_eq
    {diagnostic : Diagnostic} (culprit : Culprit table source path diagnostic) :
    diagnostic.path = path := by
  cases culprit <;> rfl

private theorem culprit_of_scan
    (spelled : table.Spelled) {diagnostic : Diagnostic}
    (failed : Token.scan table source path = .error diagnostic) :
    Culprit table source path diagnostic := by
  have scans := Token.scans_scan spelled source path
  rw [failed] at scans
  obtain ⟨before, first, rest, problem, isText, isPiece, rfl, _, ends⟩ :=
    scans.exists_unknown spelled
  have stands := Token.stands_pieceAt table first rest
  rw [isPiece] at stands
  cases stands with
  | unexpected => exact .character isText
  | @malformed run isRun nonempty =>
      have split : first :: rest = run ++ (first :: rest).dropWhile Numeral.isNumeralLetter := by
        rw [← isRun, List.takeWhile_append_dropWhile]
      have letters : ∀ char ∈ run, Numeral.isNumeralLetter char = true := by
        intro char member
        rw [← isRun] at member
        exact List.mem_takeWhile_imp member
      rw [split] at isText isRun
      refine .numeral isText nonempty letters (Token.head?_of_takeWhile isRun) fun endsApart => ?_
      rcases ends endsApart (.inl rfl) with apart | stops
      · exact apart
      · -- The run is not empty, so the line before it must end something else.
        obtain ⟨head, tail, rfl⟩ := List.exists_cons_of_ne_nil nonempty
        obtain ⟨rfl, _⟩ := List.cons.inj split
        rw [List.head?_cons, Option.any_some, letters first (.head _)] at stops
        cases stops

/-- A diagnostic of the grammar stands at the token that it blames. -/
theorem culprit_of_blames
    {tokens : List Token} {diagnostic : Diagnostic}
    (scanned : Token.scan table source path = .ok tokens)
    (blames : Grammar.Input.Blames ⟨tokens.toArray, path, .full⟩ diagnostic) :
    Culprit table source path diagnostic := by
  cases blames with
  | unexpected wanted member => exact .token wanted scanned (by simpa using member)
  | tooDeep limit member => exact .limit limit scanned (by simpa using member)

/-- Whatever is wrong with a text, the diagnostic points at it and carries the path. -/
theorem Compilation.culprit_of_ofSource
    {origin : Keyword.Source} (loaded : origin.load = .ok table) (source : String)
    (path : Option String) :
    ∃ compilation log, ofSource table source path = .ok (compilation, log) ∧
      ∀ diagnostic, compilation.diagnostic = some diagnostic →
        diagnostic.path = path ∧ Culprit table source path diagnostic := by
  have spelled := Keyword.spelled_of_load loaded
  suffices ∃ compilation log, ofSource table source path = .ok (compilation, log) ∧
      ∀ diagnostic, compilation.diagnostic = some diagnostic →
        Culprit table source path diagnostic by
    obtain ⟨compilation, log, compiled, culprits⟩ := this
    exact ⟨compilation, log, compiled, fun diagnostic wrong =>
      ⟨(culprits diagnostic wrong).path_eq, culprits diagnostic wrong⟩⟩
  unfold ofSource
  have scans := Token.scanned_scan table source path
  cases scanned : Token.scan table source path with
  | error diagnostic =>
      refine ⟨_, _, rfl, ?_⟩
      rintro _ ⟨⟩
      exact culprit_of_scan spelled scanned
  | ok tokens =>
      rw [scanned] at scans
      obtain ⟨finished, legible⟩ := scans
      have parses := Tree.parsed_ofTokens finished path
      dsimp only
      generalize parsed : Tree.ofTokens tokens path = tree at parses
      cases parses with
      | diagnostic blames =>
          refine ⟨_, _, rfl, ?_⟩
          rintro _ ⟨⟩
          exact culprit_of_blames scanned blames
      | @tree root regular branch included =>
          have judged : Program.Judged path root.leaves (Program.ofTree ⟨root, path⟩) :=
            Program.judged_ofNode regular branch fun token member =>
              legible token (included member)
          dsimp only
          generalize Program.ofTree ⟨root, path⟩ = result at judged
          cases judged with
          | value program => exact ⟨_, _, rfl, by simp⟩
          | problem member identifier concerns =>
              refine ⟨_, _, rfl, ?_⟩
              rintro _ ⟨⟩
              exact .name scanned (included member) identifier concerns

theorem Compilation.culprit_of_ofSource_undefined :
    Keyword.Source.usual.load = .ok .usual ∧
      ∃ compilation log, ofSource .usual "As x = I\nGrafo y" (some "text") = .ok (compilation, log) ∧
        compilation.diagnostic = some ⟨.variableUndefined "y", 2, 6, some "text"⟩ ∧
          Culprit .usual "As x = I\nGrafo y" (some "text")
            ⟨.variableUndefined "y", 2, 6, some "text"⟩ := by
  have loaded : Keyword.Source.usual.load = .ok .usual := rfl
  have found : (ofSource .usual "As x = I\nGrafo y" (some "text")).map (·.1.diagnostic) =
      .ok (some ⟨.variableUndefined "y", 2, 6, some "text"⟩) := by
    decide +kernel
  obtain ⟨compilation, log, compiled, culprits⟩ :=
    culprit_of_ofSource loaded "As x = I\nGrafo y" (some "text")
  rw [compiled, Except.map, Except.ok.injEq] at found
  exact ⟨loaded, compilation, log, compiled, found, (culprits _ found).2⟩

end RomanScript
