import RomanScript.Document.Meaning
import RomanScript.Keyword
import RomanScript.Text.Letter
import RomanScript.Text.Newline
import RomanScript.Text.Uppercase

/-!
Keyword tables from configuration documents. A document gives a table when its entry `keywords`
spells every keyword exactly once, each by letters of which the first is upper-case.
-/

namespace RomanScript.Keyword

/-- What keeps a document from giving a table. -/
inductive Defect where
  | noTable
  | invalidSpelling (spelling : Document)
  | unknownKeyword (keyword : Document) (spelling : String)
  | spelledTwice (keyword : Keyword) (first second : String)
  | notSpelled (keywords : List Keyword)

def Defect.message (path : String) : Defect → String
  | noTable => path ++ ": expected a non-empty 'keywords' mapping"
  | invalidSpelling spelling => path ++ ": invalid keyword spelling " ++ spelling.display
  | unknownKeyword keyword spelling =>
    path ++ ": unknown keyword kind " ++ keyword.display ++ " for " ++ Text.quoted spelling
  | spelledTwice keyword first second =>
    path ++ ": kind " ++ keyword.name ++ " spelled twice (" ++ Text.quoted first ++ ", " ++
      Text.quoted second ++ ")"
  | notSpelled keywords =>
    path ++ ": no keyword for " ++ String.intercalate ", " (keywords.map name)

/-- Whether a keyword can be spelled like this: some letters, the first of them upper-case. -/
def isSpelling (text : String) : Bool :=
  text.toList.head?.any Text.isUppercase && text.toList.all Text.isLetter

def spellingOf : Document → Except Defect String
  | .string text => if isSpelling text then .ok text else .error (.invalidSpelling (.string text))
  | key => .error (.invalidSpelling key)

def keywordOf (spelling : String) : Document → Except Defect Keyword
  | .string text =>
    match ofName? text with
    | some keyword => .ok keyword
    | none => .error (.unknownKeyword (.string text) spelling)
  | value => .error (.unknownKeyword value spelling)

/-- The entries of a table, added to those already found; the first entry with a defect is
reported. -/
def entriesFrom : List Entry → List (Document × Document) → Except Defect (List Entry)
  | found, [] => .ok found
  | found, (key, value) :: rest => do
    let spelling ← spellingOf key
    let keyword ← keywordOf spelling value
    match found.find? (·.keyword == keyword) with
    | some earlier => .error (.spelledTwice keyword earlier.spelling spelling)
    | none => entriesFrom (found ++ [⟨spelling, keyword⟩]) rest

def Table.ofDocument (document : Document) : Except Defect Table :=
  match document.entry? "keywords" with
  | some (.mapping (first :: rest)) => do
    let entries ← entriesFrom [] (first :: rest)
    match all.filter (fun keyword => !entries.any (·.keyword == keyword)) with
    | [] => return ⟨entries⟩
    | missing => .error (.notSpelled missing)
  | _ => .error .noTable

/-- Where a table comes from: the usual one, a document, or the text of a file. -/
inductive Source where
  | usual
  | document (document : Document)
  | text (text : String)

/-- Why a source gives no table: it is no document, or the document has a defect. -/
inductive LoadFailure where
  | unreadable
  | defective (defect : Defect)

def loadDocument (document : Document) : Except LoadFailure Table :=
  match Table.ofDocument document with
  | .ok table => .ok table
  | .error defect => .error (.defective defect)

def Source.load : Source → Except LoadFailure Table
  | usual => .ok Table.usual
  | document given => loadDocument given
  | text content =>
    match Document.ofText? (String.ofList (Text.unifyLineEnds content.toList)) with
    | some given => loadDocument given
    | none => .error .unreadable

end RomanScript.Keyword
