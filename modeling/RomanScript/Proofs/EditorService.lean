import RomanScript.EditorService
import RomanScript.Proofs.Compilation

/-!
# Answers to editors

An editor that asks about one text at several addresses gets answers that fit together: they come
from the same stages in the same order, so the first stage that fails speaks through all answers
that reach it.
-/

namespace RomanScript.EditorService

section Answers

variable {isOk : Bool} {key : String} {value : Json} {diagnostic : Option Diagnostic}

def diagnosticOrNull (diagnostic : Option Diagnostic) : Json :=
  (diagnostic.map diagnosticJson).getD .null

private theorem diagnosticOrNull_eq_null : diagnosticOrNull diagnostic = .null ↔ diagnostic = none := by
  cases diagnostic <;> simp [diagnosticOrNull, diagnosticJson]

@[simp]
theorem member?_ok_answer {result : List (String × Json)} :
    (answer isOk result diagnostic).member? "ok" = some (.bool isOk) := by
  simp [answer, Json.member?]

@[simp]
theorem member?_diagnostic_answer
    {result : List (String × Json)} (apart : "diagnostic" ∉ result.map (·.1)) :
    (answer isOk result diagnostic).member? "diagnostic" = some (diagnosticOrNull diagnostic) := by
  have notFound : result.find? (·.1 == "diagnostic") = none := by
    rw [List.find?_eq_none]
    intro member isMember same
    exact apart (List.mem_map.mpr ⟨member, isMember, by simpa using same⟩)
  simp [answer, Json.member?, notFound, diagnosticOrNull]

@[simp]
theorem member?_result_answer (differs : key ≠ "ok") :
    (answer isOk [(key, value)] diagnostic).member? key = some value := by
  simp [answer, Json.member?, Ne.symm differs]

end Answers

variable {table : Keyword.Table} {source : String}

structure Answers where
  tokens : Json
  parse : Json
  check : Json
  lower : Json

structure Gives (table : Keyword.Table) (source : String) (answers : Answers) : Prop where
  tokens : answerTokens table source = answers.tokens
  parse : answerParse table source = .ok answers.parse
  check : answerCheck table source = .ok answers.check
  lower : answerLower table source = .ok answers.lower

/-- Every answer that reaches the failing stage carries its diagnostic. -/
inductive Answered (table : Keyword.Table) (source : String) : Answers → Prop
  | lexical (diagnostic : Diagnostic) :
      Answered table source {
        tokens := answer false [("tokens", .array [])] (some diagnostic)
        parse := answer false [("tree", .null)] (some diagnostic)
        check := answer false [] (some diagnostic)
        lower := answer false [("program", .null)] (some diagnostic) }
  | grammatical (tokens : List Token) (diagnostic : Diagnostic) :
      Answered table source {
        tokens := answer true [("tokens", .array (tokens.map tokenJson))] none
        parse := answer false [("tree", .null)] (some diagnostic)
        check := answer false [] (some diagnostic)
        lower := answer false [("program", .null)] (some diagnostic) }
  | semantic (tokens : List Token) (tree : Tree) (diagnostic : Diagnostic) :
      Answered table source {
        tokens := answer true [("tokens", .array (tokens.map tokenJson))] none
        parse := answer true [("tree", nodeJson tree.root)] none
        check := answer false [] (some diagnostic)
        lower := answer false [("program", .null)] (some diagnostic) }
  | complete (tokens : List Token) {tree : Tree} {program : Program} :
      parse table source = .ok tree → Program.ofTree tree = .ok program →
      Answered table source {
        tokens := answer true [("tokens", .array (tokens.map tokenJson))] none
        parse := answer true [("tree", nodeJson tree.root)] none
        check := answer true [] none
        lower := answer true [("program", program.toJson)] none }

section Gives

variable {compilation : Compilation} (compiled : compile table source = .ok compilation)

include compiled

private theorem answerCheck_of_compile :
    answerCheck table source = .ok (answer compilation.isOk [] compilation.diagnostic) := by
  rw [answerCheck, compiled]

private theorem answerLower_of_compile :
    answerLower table source = .ok (answer compilation.isOk
      [("program",
        if compilation.isOk then (compilation.program.map Program.toJson).getD .null else .null)]
      compilation.diagnostic) := by
  rw [answerLower, compiled]

end Gives

/-- The four answers follow the stages. -/
theorem exists_answered (table : Keyword.Table) (source : String) :
    ∃ answers, Gives table source answers ∧ Answered table source answers := by
  cases Compilation.course table source (some path) with
  | @lexical diagnostic scanned =>
      have parsed : parse table source = .error (.diagnostic diagnostic) := by
        simp only [parse, tokens, scanned]
      have compiled : compile table source = .ok ⟨none, some diagnostic⟩ := by
        simp only [compile, Compilation.ofSource, Compilation.endedBy, scanned]
      refine ⟨_, ⟨?_, ?_, answerCheck_of_compile compiled, answerLower_of_compile compiled⟩,
        .lexical diagnostic⟩
      · simp only [answerTokens, tokens, scanned]
      · simp only [answerParse, parsed]
  | @grammatical found diagnostic scanned refused =>
      have parsed : parse table source = .error (.diagnostic diagnostic) := by
        simp only [parse, tokens, scanned, refused]
      have compiled : compile table source = .ok ⟨none, some diagnostic⟩ := by
        simp only [compile, Compilation.ofSource, Compilation.endedBy, scanned, refused]
      refine ⟨_, ⟨?_, ?_, answerCheck_of_compile compiled, answerLower_of_compile compiled⟩,
        .grammatical found diagnostic⟩
      · simp only [answerTokens, tokens, scanned]
      · simp only [answerParse, parsed]
  | @semantic found tree diagnostic scanned accepted refused =>
      have parsed : parse table source = .ok tree := by
        simp only [parse, tokens, scanned, accepted]
      have compiled : compile table source = .ok ⟨none, some diagnostic⟩ := by
        simp only [compile, Compilation.ofSource, Compilation.endedBy, scanned, accepted, refused]
      refine ⟨_, ⟨?_, ?_, answerCheck_of_compile compiled, answerLower_of_compile compiled⟩,
        .semantic found tree diagnostic⟩
      · simp only [answerTokens, tokens, scanned]
      · simp only [answerParse, parsed]
  | @complete found tree program scanned accepted lowered =>
      have parsed : parse table source = .ok tree := by
        simp only [parse, tokens, scanned, accepted]
      have compiled : compile table source = .ok ⟨some program, none⟩ := by
        simp only [compile, Compilation.ofSource, scanned, accepted, lowered]
      refine ⟨_, ⟨?_, ?_, answerCheck_of_compile compiled, answerLower_of_compile compiled⟩,
        .complete found parsed lowered⟩
      · simp only [answerTokens, tokens, scanned]
      · simp only [answerParse, parsed]

def Reports (answer diagnostic : Json) : Prop :=
  answer.member? "diagnostic" = some diagnostic ∧ diagnostic ≠ .null

/-- An answer says whether all is well, and all is well when it has no diagnostic. -/
def Sound (answer : Json) : Prop :=
  ∃ isOk diagnostic, answer.member? "ok" = some (.bool isOk) ∧
    answer.member? "diagnostic" = some diagnostic ∧ (isOk = true ↔ diagnostic = .null)

/-- Answers to one text that do not contradict one another. -/
structure Consistent (table : Keyword.Table) (source : String) (answers : Answers) : Prop where
  sound : Sound answers.tokens ∧ Sound answers.parse ∧ Sound answers.check ∧ Sound answers.lower
  tokens (diagnostic : Json) : Reports answers.tokens diagnostic →
    Reports answers.parse diagnostic ∧ Reports answers.check diagnostic ∧
      Reports answers.lower diagnostic
  parse (diagnostic : Json) : Reports answers.parse diagnostic →
    Reports answers.check diagnostic ∧ Reports answers.lower diagnostic
  verdict : answers.check.member? "ok" = answers.lower.member? "ok"
  diagnostic : answers.check.member? "diagnostic" = answers.lower.member? "diagnostic"
  program : answers.lower.member? "ok" = some (.bool true) →
    ∃ tree program, EditorService.parse table source = .ok tree ∧
      answers.parse.member? "tree" = some (nodeJson tree.root) ∧
      Program.ofTree tree = .ok program ∧
      answers.lower.member? "program" = some program.toJson

@[simp]
theorem sound_answer
    {isOk : Bool} {diagnostic : Option Diagnostic} {result : List (String × Json)}
    (apart : "diagnostic" ∉ result.map (·.1)) :
    Sound (answer isOk result diagnostic) ↔ (isOk = true ↔ diagnostic = none) := by
  simp [Sound, apart, diagnosticOrNull_eq_null]

@[simp]
theorem reports_answer
    {isOk : Bool} {diagnostic : Option Diagnostic} {result : List (String × Json)}
    (apart : "diagnostic" ∉ result.map (·.1)) (reported : Json) :
    Reports (answer isOk result diagnostic) reported ↔
      ∃ problem, diagnostic = some problem ∧ diagnosticJson problem = reported := by
  rw [Reports, member?_diagnostic_answer apart]
  cases diagnostic with
  | none => simp [diagnosticOrNull, eq_comm]
  | some problem =>
      have notNull : diagnosticJson problem ≠ .null := by simp [diagnosticJson]
      constructor
      · rintro ⟨same, _⟩
        exact ⟨problem, rfl, Option.some.inj same⟩
      · rintro ⟨_, ⟨⟩, rfl⟩
        exact ⟨rfl, notNull⟩

private theorem Answered.consistent
    {answers : Answers} (answered : Answered table source answers) :
    Consistent table source answers := by
  cases answered with
  | lexical diagnostic => constructor <;> simp
  | grammatical tokens diagnostic => constructor <;> simp
  | semantic tokens tree diagnostic => constructor <;> simp
  | complete tokens parsed lowered =>
      constructor
      case program =>
        intro _
        exact ⟨_, _, parsed, by simp, lowered, by simp⟩
      all_goals simp

def ask (table : Keyword.Table) (address source : String) : Response :=
  respond (.ok table) "POST" address (.object [("source", .string source)])

theorem ask_check
    {compilation : Compilation} (compiled : compile table source = .ok compilation) :
    ask table "/api/check" source =
      .answered (answer compilation.isOk [] compilation.diagnostic) := by
  change Response.ofAnswer (answerCheck table source) = _
  rw [answerCheck_of_compile compiled]
  rfl

/-- The service answers every text at its four addresses, and the answers fit together. -/
theorem ask_consistent (table : Keyword.Table) (source : String) :
    ∃ answers : Answers, ask table "/api/tokens" source = .answered answers.tokens ∧
      ask table "/api/parse" source = .answered answers.parse ∧
      ask table "/api/check" source = .answered answers.check ∧
      ask table "/api/lower" source = .answered answers.lower ∧
      Consistent table source answers := by
  obtain ⟨answers, gives, answered⟩ := exists_answered table source
  refine ⟨answers, ?_, ?_, ?_, ?_, answered.consistent⟩
  · rw [← gives.tokens]
    rfl
  · change Response.ofAnswer (answerParse table source) = _
    rw [gives.parse]
    rfl
  · change Response.ofAnswer (answerCheck table source) = _
    rw [gives.check]
    rfl
  · change Response.ofAnswer (answerLower table source) = _
    rw [gives.lower]
    rfl

end RomanScript.EditorService
