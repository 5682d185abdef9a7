import RomanScript.Grammar.Statement
import RomanScript.Program.Lowering
import RomanScript.Token.Scan

/-!
From a text to a program in one go. The stages follow one another until one finds something wrong,
and a log tells how far they came.
-/

namespace RomanScript

inductive Level where
  | debug
  | info
  deriving DecidableEq, Repr

def Level.name : Level → String
  | debug => "DEBUG"
  | info => "INFO"

structure Record where
  level : Level
  message : String
  deriving DecidableEq, Repr

/-- The outcome of compiling: a program, or what was wrong. -/
structure Compilation where
  program : Option Program
  diagnostic : Option Diagnostic
  deriving Repr

namespace Compilation

def isOk (compilation : Compilation) : Bool :=
  compilation.diagnostic.isNone

def stage (compilation : Compilation) : Option Stage :=
  compilation.diagnostic.bind (·.stage)

/-- The program; what was wrong counts more than a program. -/
def unwrap (compilation : Compilation) : Except Failure Program :=
  match compilation.diagnostic, compilation.program with
  | some diagnostic, _ => .error (.diagnostic diagnostic)
  | none, some program => .ok program
  | none, none => .error (.misuse .noOutcome)

def lexed (tokens : List Token) (path : Option String) : Record :=
  ⟨.debug, "lexed " ++ Text.decimal tokens.length ++ " tokens from " ++
    (match path with
      | none | some "" => "<string>"
      | some path => path)⟩

def parsed (tree : Tree) : Record :=
  ⟨.debug, "parsed " ++ Text.decimal tree.statements.length ++ " top-level statements"⟩

def lowered (program : Program) : Record :=
  ⟨.debug, "lowered " ++ Text.decimal program.functions.length ++ " functions and " ++
    Text.decimal program.statements.length ++ " statements"⟩

def failed (diagnostic : Diagnostic) : Record :=
  ⟨.info, (diagnostic.stage.map Stage.name).getD "" ++ " error: " ++ diagnostic.describe⟩

/-- The outcome when a stage failed after some records; a misuse is passed on. -/
def endedBy (failure : Failure) (log : List Record) :
    Except Misuse (Compilation × List Record) :=
  match failure with
  | .diagnostic diagnostic => .ok (⟨none, some diagnostic⟩, log ++ [failed diagnostic])
  | .misuse misuse => .error misuse

def ofSource (table : Keyword.Table) (source : String) (path : Option String) :
    Except Misuse (Compilation × List Record) :=
  match Token.scan table source path with
  | .error diagnostic => endedBy (.diagnostic diagnostic) []
  | .ok tokens =>
    match Tree.ofTokens tokens path with
    | .error failure => endedBy failure [lexed tokens path]
    | .ok tree =>
      match Program.ofTree tree with
      | .error failure => endedBy failure [lexed tokens path, parsed tree]
      | .ok program =>
        .ok (⟨some program, none⟩, [lexed tokens path, parsed tree, lowered program])

end Compilation

end RomanScript
