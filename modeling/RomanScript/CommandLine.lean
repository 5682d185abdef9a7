import RomanScript.CommandLine.Arguments
import RomanScript.Compilation
import RomanScript.Keyword.Loading
import RomanScript.Text.Newline

/-!
The command line. What it does with a file depends on nothing but the arguments, the keyword table
and what stands at the path.
-/

namespace RomanScript.CommandLine

/-- What can stand at a path; nothing can be found out about one that the file system refuses. -/
inductive Entry where
  | missing
  | refused
  | folder
  | file (bytes : ByteArray)

/-- What the program leaves behind when it ends: its exit code and what it has written. -/
structure Report where
  exitCode : Nat
  output : String
  errors : String
  deriving DecidableEq, Repr

inductive Crash where
  | refusedPath
  | isFolder
  | notText
  | noTable (failure : Keyword.LoadFailure)
  | misuse (misuse : Misuse)

inductive Outcome where
  | usage
  | finished (report : Report)
  | crashed (crash : Crash)

def versionLine : String := "rome77 0.1.0"

def helpLine : String := "Usage: rome77 [-v] tokens|parse|check|lower FILE"

def succeed (output : String) (errors : String) : Outcome :=
  .finished ⟨0, output, errors⟩

def stageTitle : Option Stage → String
  | some .lexical => "Lexical"
  | some .grammatical => "Syntax"
  | some .semantic => "Semantic"
  | none => ""

/-- A report of something wrong with a program, after what has been written to the errors
already. -/
def report (errors : String) (diagnostic : Diagnostic) : Outcome :=
  .finished ⟨1, "",
    errors ++ stageTitle diagnostic.stage ++ " error: " ++ diagnostic.describe ++ "\n"⟩

def fail (errors : String) : Failure → Outcome
  | .diagnostic diagnostic => report errors diagnostic
  | .misuse misuse => .crashed (.misuse misuse)

section Commands

variable (table : Keyword.Table) (source path : String)

def tokenLine (token : Token) : String :=
  Text.decimal token.line ++ ":" ++ Text.decimal token.column ++ "\t" ++ token.symbol.name ++
    "\t" ++ token.text ++ "\n"

def runTokens : Outcome :=
  match Token.scan table source (some path) with
  | .ok tokens => succeed (String.join (tokens.map tokenLine)) ""
  | .error diagnostic => report "" diagnostic

def runParse : Outcome :=
  match Token.scan table source (some path) with
  | .error diagnostic => report "" diagnostic
  | .ok tokens =>
    match Tree.ofTokens tokens (some path) with
    | .error failure => fail "" failure
    | .ok tree =>
      succeed ("Parsed " ++ Text.decimal tree.statements.length ++ " statements.\n" ++
        tree.root.listing 0 ++ "\n") ""

def recordLine (record : Record) : String :=
  record.level.name ++ " rome77.pipeline: " ++ record.message ++ "\n"

/-- Compiles a text and writes what `present` makes of the outcome. -/
def runCompile (verbose : Bool) (present : Compilation → String) : Outcome :=
  match Compilation.ofSource table source (some path) with
  | .error misuse => .crashed (.misuse misuse)
  | .ok (compilation, log) =>
    let errors := if verbose then String.join (log.map recordLine) else ""
    match compilation.diagnostic with
    | some diagnostic => report errors diagnostic
    | none => succeed (present compilation) errors

def programText (compilation : Compilation) : String :=
  ((compilation.program.map fun program => program.toJson.indented 0).getD "") ++ "\n"

def runCommand (verbose : Bool) : Command → Outcome
  | .tokens => runTokens table source path
  | .parse => runParse table source path
  | .check => runCompile table source path verbose fun _ => "OK\n"
  | .lower => runCompile table source path verbose programText

end Commands

def textOf? (bytes : ByteArray) : Option String :=
  (String.fromUTF8? bytes).map fun text => String.ofList (Text.unifyLineEnds text.toList)

/-- Does what a command asks for with what stands at the path; the table is needed only for a
text. -/
def runAt (load : Except Keyword.LoadFailure Keyword.Table) (verbose : Bool) (command : Command)
    (path : String) : Entry → Outcome
  | .missing => .finished ⟨1, "", "Error: file not found: " ++ path ++ "\n"⟩
  | .refused => .crashed .refusedPath
  | .folder => .crashed .isFolder
  | .file bytes =>
    match textOf? bytes with
    | none => .crashed .notText
    | some source =>
      match load with
      | .error failure => .crashed (.noTable failure)
      | .ok table => runCommand table source path verbose command

/-- A run of the program, given what stands at each path. -/
def run (load : Except Keyword.LoadFailure Keyword.Table) (entryAt : String → Entry)
    (arguments : List String) : Outcome :=
  match Request.ofArguments? arguments with
  | none => .usage
  | some .version => succeed (versionLine ++ "\n") ""
  | some .help => succeed (helpLine ++ "\n") ""
  | some (.run verbose command path) => runAt load verbose command path (entryAt path)

end RomanScript.CommandLine
