import RomanScript.CommandLine
import RomanScript.Proofs.EditorService
import RomanScript.Proofs.LineEnds

/-!
# The command line and the service for editors

A text in a file gets the same verdict from the command line as the text itself gets from the
service. The command line unifies the line ends of a file before it counts lines and columns, and the
service does not, so the places of a problem are the same exactly if no carriage return stands alone
before it.
-/

namespace RomanScript.CommandLine

open Token

/-- A problem behind some characters of a text. -/
def diagnosticBehind (problem : Problem) (before : List Char) (path : String) : Diagnostic :=
  ⟨problem, (Place.after before).line, (Place.after before).column, some path⟩

def errorLine (diagnostic : Diagnostic) : String :=
  stageTitle diagnostic.stage ++ " error: " ++ diagnostic.describe ++ "\n"

variable {load : Except Keyword.LoadFailure Keyword.Table} {table : Keyword.Table}
    {arguments : List String} {verbose : Bool} {path text : String} {entryAt : String → Entry}

private theorem textOf?_toUTF8 (text : String) :
    textOf? text.toUTF8 = some (String.ofList (Text.unifyLineEnds text.toList)) := by
  have decoded : String.fromUTF8? text.toUTF8 = some text := dif_pos text.isValidUTF8
  rw [textOf?, decoded, Option.map_some]

private theorem run_check
    (loaded : load = .ok table)
    (asked : Request.ofArguments? arguments = some (.run verbose .check path))
    (stored : entryAt path = .file text.toUTF8) :
    run load entryAt arguments =
      runCompile table (String.ofList (Text.unifyLineEnds text.toList)) path verbose
        fun _ => "OK\n" := by
  rw [run, asked]
  dsimp only
  rw [stored, runAt, textOf?_toUTF8, loaded]
  rfl

/-- The same verdict on a text: both accept it, or both report the same problem behind the same
characters. The command line finds it as many lines further down as carriage returns stand alone
before it, and at the same place if there are none. -/
structure Agree (verbose : Bool) (path text : String) (report : Report) (answer : Json) : Prop where
  accepted : report.exitCode = 0 ↔ answer.member? "ok" = some (.bool true)
  refused : report.exitCode ≠ 0 →
    ∃ log problem before behind, text.toList = before ++ behind ∧ (verbose = false → log = "") ∧
      EditorService.Reports answer
        (EditorService.diagnosticJson (diagnosticBehind problem before EditorService.path)) ∧
      report.errors =
        log ++ errorLine (diagnosticBehind problem (Text.unifyLineEnds before) path) ∧
      (Place.after (Text.unifyLineEnds before)).line =
        (Place.after before).line + Text.loneReturns before ∧
      (Place.after (Text.unifyLineEnds before) = Place.after before ↔ Text.loneReturns before = 0)

private theorem agree_accepted (log : String) :
    Agree verbose path text ⟨0, "OK\n", log⟩ (EditorService.answer true [] none) where
  accepted := by simp
  refused isRefused := absurd rfl isRefused

private theorem agree_refused
    (log : String) {before behind : List Char} (problem : Problem)
    (isText : text.toList = before ++ behind) (quiet : verbose = false → log = "") :
    Agree verbose path text
      ⟨1, "", log ++ errorLine (diagnosticBehind problem (Text.unifyLineEnds before) path)⟩
      (EditorService.answer false []
        (some (diagnosticBehind problem before EditorService.path))) where
  accepted := by simp
  refused _ := by
    refine ⟨log, problem, before, behind, isText, quiet, ?_, rfl,
      Place.line_after_unifyLineEnds before, Place.after_unifyLineEnds_eq_iff before⟩
    rw [EditorService.reports_answer List.not_mem_nil]
    exact ⟨_, rfl, rfl⟩

/-- A file that holds a text gets the verdict from the command line that the text gets from the
service for editors. -/
theorem run_check_agree
    {origin : Keyword.Source} (loaded : origin.load = .ok table)
    (asked : Request.ofArguments? arguments = some (.run verbose .check path))
    (stored : entryAt path = .file text.toUTF8) :
    ∃ report answer, run origin.load entryAt arguments = .finished report ∧
      EditorService.ask table "/api/check" text = .answered answer ∧
        Agree verbose path text report answer := by
  obtain ⟨compilation, log, compilation', log', compiled, compiled', unified⟩ :=
    Compilation.ofSource_unified (Keyword.spelled_of_load loaded) text (some EditorService.path)
      (some path)
  have isCompiled : EditorService.compile table text = .ok compilation := by
    rw [EditorService.compile, compiled]
  rw [run_check loaded asked stored, EditorService.ask_check isCompiled, runCompile, compiled']
  cases unified with
  | program => exact ⟨_, _, rfl, rfl, agree_accepted _⟩
  | diagnostic unified =>
      cases unified with
      | intro problem places =>
          cases places with
          | intro isPrefix =>
              obtain ⟨behind, isText⟩ := isPrefix
              have quiet : verbose = false →
                  (if verbose then String.join (log'.map recordLine) else "") = "" := by
                rintro rfl
                rfl
              refine ⟨_, _, ?_, rfl, agree_refused _ problem isText.symm quiet⟩
              simp [report, errorLine, diagnosticBehind, String.append_assoc]

/-- What cannot be scanned is reported and nothing else is written. -/
theorem runCompile_of_scan
    {diagnostic : Diagnostic} {present : Compilation → String}
    (scanned : Token.scan table text (some path) = .error diagnostic) :
    runCompile table text path false present = .finished ⟨1, "", errorLine diagnostic⟩ := by
  rw [runCompile, Compilation.ofSource, scanned]
  simp [Compilation.endedBy, report, errorLine]

/-- A text with an unknown character on its second line, behind a carriage return and a line
feed. -/
theorem run_check_agree_bothReturns :
    Keyword.Source.usual.load = .ok .usual ∧
      Request.ofArguments? ["check", "a"] = some (.run false .check "a") ∧
      ∃ answer,
        run Keyword.Source.usual.load (fun _ => .file "As x\r\n= $".toUTF8) ["check", "a"] =
            .finished ⟨1, "", "Lexical error: a:2:2: Unexpected character: '$'\n"⟩ ∧
          EditorService.ask .usual "/api/check" "As x\r\n= $" = .answered answer ∧
            Agree false "a" "As x\r\n= $"
              ⟨1, "", "Lexical error: a:2:2: Unexpected character: '$'\n"⟩ answer := by
  have loaded : Keyword.Source.usual.load = .ok .usual := rfl
  have asked : Request.ofArguments? ["check", "a"] = some (.run false .check "a") := by
    decide +kernel
  have scanned : Token.scan .usual
      (String.ofList (Text.unifyLineEnds "As x\r\n= $".toList)) (some "a") =
        .error ⟨.unexpectedCharacter '$', 2, 2, some "a"⟩ := by decide +kernel
  have isLine : errorLine ⟨.unexpectedCharacter '$', 2, 2, some "a"⟩ =
      "Lexical error: a:2:2: Unexpected character: '$'\n" := by decide +kernel
  have isRun : run Keyword.Source.usual.load (fun _ => .file "As x\r\n= $".toUTF8)
      ["check", "a"] = .finished ⟨1, "", "Lexical error: a:2:2: Unexpected character: '$'\n"⟩ := by
    rw [run_check loaded asked rfl, runCompile_of_scan scanned, isLine]
  obtain ⟨_, answer, isReport, isAnswer, agree⟩ :=
    @run_check_agree _ _ _ _ "As x\r\n= $" (fun _ => .file "As x\r\n= $".toUTF8) _ loaded asked rfl
  cases isRun.symm.trans isReport
  exact ⟨loaded, asked, answer, isRun, isAnswer, agree⟩

/-- What editors see of a diagnostic decides the line that is written about it. -/
theorem errorLine_congr
    {x y : Diagnostic} (same : EditorService.diagnosticJson x = EditorService.diagnosticJson y)
    (samePath : x.path = y.path) : errorLine x = errorLine y := by
  simp only [EditorService.diagnosticJson, Json.object.injEq, List.cons.injEq, Prod.mk.injEq,
    Json.string.injEq, Json.number.injEq, true_and, and_true] at same
  obtain ⟨sameKind, sameLine, sameColumn, sameMessage⟩ := same
  have sameTitle : stageTitle x.stage = stageTitle y.stage := by
    generalize x.stage = stage at sameKind
    generalize y.stage = stage' at sameKind
    rcases stage with _ | stage <;> rcases stage' with _ | stage'
    · rfl
    · cases stage' <;> simp [Stage.name] at sameKind
    · cases stage <;> simp [Stage.name] at sameKind
    · cases stage <;> cases stage' <;> simp [Stage.name] at sameKind ⊢
  rw [errorLine, errorLine, sameTitle, Diagnostic.describe, Diagnostic.describe, samePath, sameLine,
    sameColumn, sameMessage]

/-- Behind a carriage return that stands alone the two report a problem at different places. -/
theorem not_run_check_same_place :
    ∃ report answer,
      run (.ok .usual) (fun _ => .file "\r$".toUTF8) ["check", "a"] = .finished report ∧
        EditorService.ask .usual "/api/check" "\r$" = .answered answer ∧
        report.exitCode = 1 ∧ answer.member? "ok" = some (.bool false) ∧
          ¬ ∃ problem line column,
            EditorService.Reports answer
                (EditorService.diagnosticJson ⟨problem, line, column, some EditorService.path⟩) ∧
              report.errors = errorLine ⟨problem, line, column, some "a"⟩ := by
  have asked : Request.ofArguments? ["check", "a"] = some (.run false .check "a") := by
    decide +kernel
  have scanned : Token.scan .usual "\r$" (some EditorService.path) =
      .error ⟨.unexpectedCharacter '$', 1, 1, some EditorService.path⟩ := by decide +kernel
  have scanned' : Token.scan .usual (String.ofList (Text.unifyLineEnds "\r$".toList)) (some "a") =
      .error ⟨.unexpectedCharacter '$', 2, 0, some "a"⟩ := by decide +kernel
  have isRun : run (.ok .usual) (fun _ => .file "\r$".toUTF8) ["check", "a"] = _ :=
    (run_check rfl asked rfl).trans (runCompile_of_scan scanned')
  have isCompiled : EditorService.compile .usual "\r$" =
      .ok ⟨none, some ⟨.unexpectedCharacter '$', 1, 1, some EditorService.path⟩⟩ := by
    rw [EditorService.compile, Compilation.ofSource, scanned]
    rfl
  refine ⟨_, _, isRun, EditorService.ask_check isCompiled, rfl, by simp [Compilation.isOk], ?_⟩
  intro agreed
  obtain ⟨problem, line, column, reports, isLine⟩ := agreed
  rw [EditorService.reports_answer List.not_mem_nil] at reports
  obtain ⟨_, ⟨⟩, same⟩ := reports
  have sameLine : errorLine ⟨.unexpectedCharacter '$', 1, 1, some "a"⟩ =
      errorLine ⟨problem, line, column, some "a"⟩ := errorLine_congr same rfl
  exact absurd (isLine.trans sameLine.symm) (by decide +kernel)

end RomanScript.CommandLine
