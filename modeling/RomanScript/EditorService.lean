import RomanScript.Compilation
import RomanScript.Keyword.Loading

/-!
The service for editors. An editor sends a text and gets back its tokens, its tree, its program, or
what is wrong with it.
-/

namespace RomanScript.EditorService

def path : String := "editor"

inductive Route where
  | tokens
  | parse
  | check
  | lower
  | keywords
  deriving DecidableEq, Repr

def route? : String → Option Route
  | "/api/tokens" => some .tokens
  | "/api/parse" => some .parse
  | "/api/check" => some .check
  | "/api/lower" => some .lower
  | "/api/keywords" => some .keywords
  | _ => none

def Route.method : Route → String
  | keywords => "GET"
  | _ => "POST"

inductive BodyDefect where
  | noObject
  | noSource
  | sourceNotText
  deriving DecidableEq, Repr

def BodyDefect.toJson : BodyDefect → Json
  | noObject =>
    .array [.string "model_type", .array [],
      .string "Input should be a valid dictionary or instance of SourceRequest"]
  | noSource => .array [.string "missing", .array [.string "source"], .string "Field required"]
  | sourceNotText =>
    .array [.string "string_type", .array [.string "source"],
      .string "Input should be a valid string"]

def sourceOf (body : Json) : Except BodyDefect String :=
  match body with
  | .object _ =>
    match body.member? "source" with
    | some (.string source) => .ok source
    | some _ => .error .sourceNotText
    | none => .error .noSource
  | _ => .error .noObject

/-- A diagnostic as editors see it, without a path. -/
def diagnosticJson (diagnostic : Diagnostic) : Json :=
  .object [("kind", .string ((diagnostic.stage.map Stage.name).getD "")),
    ("line", .number diagnostic.line), ("column", .number diagnostic.column),
    ("message", .string diagnostic.message)]

def tokenJson (token : Token) : Json :=
  .object [("kind", .string token.symbol.name), ("text", .string token.text),
    ("line", .number token.line), ("column", .number token.column)]

mutual

/-- A node as editors see it, without its height. -/
def nodeJson : Node → Json
  | .leaf token =>
    .object [("name", .string token.symbol.name), ("text", .string token.text),
      ("line", .number token.line), ("column", .number token.column), ("children", .array [])]
  | .branch symbol text line column _ children =>
    .object [("name", .string symbol.name), ("text", .string text),
      ("line", .number line), ("column", .number column), ("children", .array (nodesJson children))]

def nodesJson : List Node → List Json
  | [] => []
  | node :: rest => nodeJson node :: nodesJson rest

end

def tokens (table : Keyword.Table) (source : String) : Except Diagnostic (List Token) :=
  Token.scan table source (some path)

def parse (table : Keyword.Table) (source : String) : Except Failure Tree :=
  match tokens table source with
  | .error diagnostic => .error (.diagnostic diagnostic)
  | .ok tokens => Tree.ofTokens tokens (some path)

def compile (table : Keyword.Table) (source : String) : Except Misuse Compilation :=
  match Compilation.ofSource table source (some path) with
  | .error misuse => .error misuse
  | .ok (compilation, _) => .ok compilation

/-- An answer: whether all is well, what was asked for, and what is wrong. -/
def answer (isOk : Bool) (result : List (String × Json)) (diagnostic : Option Diagnostic) : Json :=
  .object ([("ok", .bool isOk)] ++ result ++
    [("diagnostic", (diagnostic.map diagnosticJson).getD .null)])

/-- The answer with the tokens of a text, of which there are none if something is wrong. -/
def answerTokens (table : Keyword.Table) (source : String) : Json :=
  match tokens table source with
  | .ok tokens => answer true [("tokens", .array (tokens.map tokenJson))] none
  | .error diagnostic => answer false [("tokens", .array [])] (some diagnostic)

def answerParse (table : Keyword.Table) (source : String) : Except Misuse Json :=
  match parse table source with
  | .ok tree => .ok (answer true [("tree", nodeJson tree.root)] none)
  | .error (.diagnostic diagnostic) => .ok (answer false [("tree", .null)] (some diagnostic))
  | .error (.misuse misuse) => .error misuse

def answerCheck (table : Keyword.Table) (source : String) : Except Misuse Json :=
  match compile table source with
  | .ok compilation => .ok (answer compilation.isOk [] compilation.diagnostic)
  | .error misuse => .error misuse

def answerLower (table : Keyword.Table) (source : String) : Except Misuse Json :=
  match compile table source with
  | .ok compilation =>
    .ok (answer compilation.isOk
      [("program",
        if compilation.isOk then (compilation.program.map Program.toJson).getD .null else .null)]
      compilation.diagnostic)
  | .error misuse => .error misuse

def answerKeywords (table : Keyword.Table) : Json :=
  .object [("keywords", .object (table.entries.map fun entry =>
    (entry.spelling, .string entry.keyword.name)))]

inductive Response where
  | notFound
  | wrongMethod
  | invalidBody (defect : BodyDefect)
  | noTable (failure : Keyword.LoadFailure)
  | answered (answer : Json)
  | failed (misuse : Misuse)

def Response.ofAnswer : Except Misuse Json → Response
  | .ok answer => answered answer
  | .error misuse => failed misuse

/-- The response that needs a keyword table. -/
def withTable (load : Except Keyword.LoadFailure Keyword.Table)
    (respond : Keyword.Table → Response) : Response :=
  match load with
  | .ok table => respond table
  | .error failure => .noTable failure

/-- The response of a route that takes a text; the table is needed only for a valid body. -/
def respondWith (load : Except Keyword.LoadFailure Keyword.Table) (body : Json)
    (answer : Keyword.Table → String → Except Misuse Json) : Response :=
  match sourceOf body with
  | .ok source => withTable load fun table => .ofAnswer (answer table source)
  | .error defect => .invalidBody defect

def respond (load : Except Keyword.LoadFailure Keyword.Table) (method address : String)
    (body : Json) : Response :=
  match route? address with
  | none => .notFound
  | some route =>
    if method = route.method then
      match route with
      | .tokens => respondWith load body fun table source => .ok (answerTokens table source)
      | .parse => respondWith load body answerParse
      | .check => respondWith load body answerCheck
      | .lower => respondWith load body answerLower
      | .keywords => withTable load fun table => .answered (answerKeywords table)
    else .wrongMethod

end RomanScript.EditorService
