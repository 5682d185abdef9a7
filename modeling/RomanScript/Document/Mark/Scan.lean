import RomanScript.Document.Literal
import RomanScript.Document.Mark

/-!
Marks of a text. A key shows itself only by the colon behind it. So the scan keeps in mind where one
may have begun, and puts the marks for a key there once its colon is found. A key lies within one
line and is not longer than 1024 characters.
-/

namespace RomanScript.Document

/-- The beginning of what may turn out to be a key: the number of marks before it, whether it has to
be one, and its place. -/
structure Candidate where
  position : Nat
  required : Bool
  index : Nat
  line : Nat
  column : Nat

/-- How far a scan has come: its place, the marks found, the last one first, whether a key may begin
here, and the candidates for a key, one for each pair of brackets that is open and one for what is
outside of them, the innermost first. The margins are the columns behind those where the open blocks
begin, the innermost first. -/
structure Scan where
  cursor : Cursor
  marks : List Mark
  keyAllowed : Bool
  candidate : Option Candidate
  outer : List (Option Candidate)
  margins : List Nat

namespace Scan

def start (text : List Char) : Scan :=
  ⟨.start text, [], true, none, [], []⟩

def inFlow (scan : Scan) : Bool :=
  !scan.outer.isEmpty

/-- The first column of what belongs to the innermost block. -/
def margin (scan : Scan) : Nat :=
  scan.margins.headD 0

def push (mark : Mark) (scan : Scan) : Scan :=
  { scan with marks := mark :: scan.marks }

def skip (count : Nat) (scan : Scan) : Scan :=
  { scan with cursor := scan.cursor.skip count }

def allowKey (allowed : Bool) (scan : Scan) : Scan :=
  { scan with keyAllowed := allowed }

/-- Gives up the candidate; it must not be one that has to be a key. -/
def dropCandidate? (scan : Scan) : Option Scan :=
  if scan.candidate.any (·.required) then none else some { scan with candidate := none }

/-- Whether what is read at a place can no longer be the colon of a candidate. -/
def isStale (cursor : Cursor) (candidate : Candidate) : Bool :=
  candidate.line != cursor.line || 1024 < cursor.index - candidate.index

/-- Gives up all candidates that are stale; there must not be one among them that has to be a
key. -/
def dropStale? (scan : Scan) : Option Scan :=
  let stale (candidate : Option Candidate) : Bool := candidate.any (isStale scan.cursor)
  if (scan.candidate :: scan.outer).any (·.any fun candidate =>
      candidate.required && isStale scan.cursor candidate) then none
  else some { scan with
    candidate := if stale scan.candidate then none else scan.candidate
    outer := scan.outer.map fun candidate => if stale candidate then none else candidate }

/-- Keeps the place in mind, if a key may begin here. It has to be one where an entry of the
innermost block begins. -/
def noteCandidate? (scan : Scan) : Option Scan :=
  if scan.keyAllowed then do
    let scan ← scan.dropCandidate?
    let cursor := scan.cursor
    let required := !scan.inFlow && scan.margin == cursor.column + 1
    let candidate : Candidate :=
      ⟨scan.marks.length, required, cursor.index, cursor.line, cursor.column⟩
    return { scan with candidate := some candidate }
  else some scan

/-- Closes, outside of brackets, the blocks that begin right of a column. -/
def closeTo (margin : Nat) (scan : Scan) : Scan :=
  if scan.inFlow then scan
  else
    let remaining := scan.margins.dropWhile (margin < ·)
    let closed := scan.margins.length - remaining.length
    { scan with margins := remaining, marks := List.replicate closed .blockEnd ++ scan.marks }

/-- Opens a block at a column, if none has been opened there; its mark goes before the last `back`
marks. -/
def openBlock (mark : Mark) (column back : Nat) (scan : Scan) : Scan :=
  if scan.margin ≤ column then
    { scan with
      margins := (column + 1) :: scan.margins
      marks := scan.marks.insertIdx back mark }
  else scan

/-- Reads the sign of an entry outside of brackets, which opens a block if it is the first one; it
must stand where a key may begin. -/
def openEntry? (mark : Mark) (scan : Scan) : Option Scan :=
  if scan.inFlow then some scan
  else if scan.keyAllowed then some (scan.openBlock mark scan.cursor.column 0)
  else none

def readOpening? (mark : Mark) (scan : Scan) : Option Scan := do
  let scan ← scan.noteCandidate?
  return ({ scan with candidate := none, outer := scan.candidate :: scan.outer }.allowKey true
    |>.push mark |>.skip 1)

def readClosing? (mark : Mark) (scan : Scan) : Option Scan := do
  let scan ← scan.dropCandidate?
  match scan.outer with
  | [] => none
  | candidate :: outer =>
    return ({ scan with candidate := candidate, outer := outer }.allowKey false
      |>.push mark |>.skip 1)

def readComma? (scan : Scan) : Option Scan := do
  let scan ← (scan.allowKey true).dropCandidate?
  return (scan.push .comma |>.skip 1)

def readDash? (scan : Scan) : Option Scan := do
  let scan ← scan.openEntry? .blockSequence
  let scan ← (scan.allowKey true).dropCandidate?
  return (scan.push .dash |>.skip 1)

def readKey? (scan : Scan) : Option Scan := do
  let scan ← scan.openEntry? .blockMapping
  let scan ← (scan.allowKey (!scan.inFlow)).dropCandidate?
  return (scan.push .key |>.skip 1)

/-- Reads the colon of a value. If there is a candidate for a key, that is the key, and the marks
for it go in front of what has been read since. -/
def readColon? (scan : Scan) : Option Scan := do
  match scan.candidate with
  | some candidate =>
    let back := scan.marks.length - candidate.position
    let scan := { scan with candidate := none, marks := scan.marks.insertIdx back .key }
    let scan := if scan.inFlow then scan else scan.openBlock .blockMapping candidate.column (back + 1)
    return (scan.allowKey false |>.push .colon |>.skip 1)
  | none =>
    let scan ← scan.openEntry? .blockMapping
    return (scan.allowKey (!scan.inFlow) |>.push .colon |>.skip 1)

/-- Reads something that may be a key, or begin one: `mark`, of `size` characters. -/
def readNode? (mark : Mark) (size : Nat) (scan : Scan) : Option Scan := do
  let scan ← scan.noteCandidate?
  return (scan.allowKey false |>.push mark |>.skip size)

def readQuoted? (quotation : Char) (scan : Scan) : Option Scan := do
  let scan ← scan.noteCandidate?
  let (codes, after) ← quotedAt? quotation scan.cursor
  return ({ scan with cursor := after }.allowKey false |>.push (.quoted codes))

/-- Reads a plain scalar. If a line ends behind it, a key may begin there. -/
def readPlain? (scan : Scan) : Option Scan := do
  let scan ← scan.noteCandidate?
  let plain := plainAt scan.inFlow scan.margin scan.cursor
  return ({ scan with cursor := plain.after }.allowKey plain.breaksLine
    |>.push (.plain (String.ofList plain.text)))

def readLiteral? (folded : Bool) (scan : Scan) : Option Scan := do
  let scan ← (scan.allowKey true).dropCandidate?
  let (text, after) ← literalAt? folded scan.margin scan.cursor
  return { scan with cursor := after }.push (.quoted (text.map Char.toNat))

/-- Reads what stands at the beginning of a line outside of all blocks: `mark`, of `size`
characters. -/
def readDivision? (mark : Mark) (size : Nat) (scan : Scan) : Option Scan := do
  let scan ← (scan.closeTo 0).dropCandidate?
  return (scan.allowKey false |>.push mark |>.skip size)

def readMark? (char : Char) (rest : List Char) (scan : Scan) : Option Scan :=
  let atStart := scan.cursor.column == 0
  let plain? := if startsPlain scan.inFlow (char :: rest) then scan.readPlain? else none
  if atStart && char == '%' then
    let line := rest.takeWhile (!endsLine ·)
    (directive? line).bind fun mark => scan.readDivision? mark (line.length + 1)
  else if atStart && startsDivision (char :: rest) then
    scan.readDivision? (if char == '-' then .documentStart else .documentEnd) 3
  else
    match char with
    | '[' => scan.readOpening? .openBracket
    | '\x7b' => scan.readOpening? .openBrace
    | ']' => scan.readClosing? .closeBracket
    | '\x7d' => scan.readClosing? .closeBrace
    | ',' => scan.readComma?
    | '-' => if startsBlank rest then scan.readDash? else plain?
    | '?' => if scan.inFlow || startsBlank rest then scan.readKey? else plain?
    | ':' => if scan.inFlow || startsBlank rest then scan.readColon? else plain?
    | '*' => (anchorName? rest).bind fun name => scan.readNode? (.reference name) (name.length + 1)
    | '&' => (anchorName? rest).bind fun name => scan.readNode? (.anchor name) (name.length + 1)
    | '!' => (tag? rest).bind fun (mark, size) => scan.readNode? mark (size + 1)
    | '|' => if scan.inFlow then none else scan.readLiteral? false
    | '>' => if scan.inFlow then none else scan.readLiteral? true
    | '\x27' => scan.readQuoted? '\x27'
    | '\x22' => scan.readQuoted? '\x22'
    | _ => plain?

/-- The number of characters before the next mark, which are spaces, line ends and comments, and
whether a line ends among them. -/
def leadIn : Bool → List Char → Nat × Bool
  | _, [] => (0, false)
  | inComment, char :: rest =>
    if endsLine char then ((leadIn false rest).1 + 1, true)
    else if inComment || char == ' ' || char == '#' then
      let (size, breaksLine) := leadIn (inComment || char == '#') rest
      (size + 1, breaksLine)
    else (0, false)

/-- Goes to the next mark. Outside of brackets a key may begin on a new line. -/
def skipLeadIn (scan : Scan) : Scan :=
  let (size, breaksLine) := leadIn false scan.cursor.rest
  (scan.skip size).allowKey (scan.keyAllowed || (breaksLine && !scan.inFlow))

/-- All marks from a state on, the last one first; what is still open at the end of the text is
closed there. A mark takes at least one character, so that their number is a limit. -/
def marksFrom? : Nat → Scan → Option (List Mark)
  | 0, _ => none
  | limit + 1, scan => do
    let scan ← scan.skipLeadIn.dropStale?
    match scan.cursor.rest with
    | [] => ((scan.closeTo 0).dropCandidate?).map (·.marks)
    | char :: rest =>
      let scan ← (scan.closeTo (scan.cursor.column + 1)).readMark? char rest
      marksFrom? limit scan

end Scan

def Mark.ofText? (text : String) : Option (List Mark) :=
  let chars := text.toList
  if chars.all isAllowed then
    (Scan.marksFrom? (chars.length + 1) (.start chars)).map List.reverse
  else none

end RomanScript.Document
