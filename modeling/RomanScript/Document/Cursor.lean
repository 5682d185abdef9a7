/-!
Places in the text of a document. A place knows what follows it, how many characters stand before
it, and its line and column, both counted from zero. A line ends with a line feed, a next-line
character, or a line or paragraph separator.
-/

namespace RomanScript.Document

def endsLine (char : Char) : Bool :=
  char == '\n' || char == '\u0085' || char == '\u2028' || char == '\u2029'

/-- The character that a line end stands for in a scalar: separators stand for themselves, the
other ends for a line feed. -/
def lineEnd (char : Char) : Char :=
  if char == '\u0085' then '\n' else char

def isSpace (char : Char) : Bool :=
  char == ' ' || char == '\t'

def isBlank (char : Char) : Bool :=
  isSpace char || endsLine char

/-- Whether nothing but a blank, if anything, comes first. -/
def startsBlank (rest : List Char) : Bool :=
  rest.head?.all isBlank

def startsGap (rest : List Char) : Bool :=
  rest.head?.all fun char => char == ' ' || endsLine char

/-- Whether a line with these characters on parts documents: three dashes or three points alone. -/
def startsDivision : List Char → Bool
  | '-' :: '-' :: '-' :: rest => startsBlank rest
  | '.' :: '.' :: '.' :: rest => startsBlank rest
  | _ => false

def isEmptyLine (line : List Char) : Bool :=
  match line.dropWhile (· == ' ') with
  | [] => true
  | char :: _ => char == '#'

def isAllowed (char : Char) : Bool :=
  char == '\t' || char == '\n' || (' ' ≤ char && char ≤ '~') || char == '\u0085' ||
    ('\u00a0' ≤ char && char != '\ufffe' && char != '\uffff')

structure Cursor where
  rest : List Char
  index : Nat
  line : Nat
  column : Nat

namespace Cursor

/-- The place behind the next character. A byte order mark takes no column. -/
def next (cursor : Cursor) : Cursor :=
  match cursor.rest with
  | [] => cursor
  | char :: rest =>
    if endsLine char then ⟨rest, cursor.index + 1, cursor.line + 1, 0⟩
    else if char == '\ufeff' then ⟨rest, cursor.index + 1, cursor.line, cursor.column⟩
    else ⟨rest, cursor.index + 1, cursor.line, cursor.column + 1⟩

def skip : Nat → Cursor → Cursor
  | 0, cursor => cursor
  | count + 1, cursor => skip count cursor.next

/-- The first place of a text; a byte order mark at its beginning is skipped. -/
def start (text : List Char) : Cursor :=
  match text with
  | '\ufeff' :: rest => ⟨rest, 1, 0, 0⟩
  | _ => ⟨text, 0, 0, 0⟩

end Cursor

/-- The line ends among the blanks that come first, and the number of all these blanks; none if
after one of the line ends the document is over. The characters that `isFiller` accepts may stand
between line ends. -/
def lineEnds? (isFiller : Char → Bool) : List Char → Option (List Char × Nat)
  | [] => some ([], 0)
  | char :: rest =>
    if endsLine char then
      if startsDivision rest then none
      else (lineEnds? isFiller rest).map fun (ends, size) => (lineEnd char :: ends, size + 1)
    else if isFiller char then
      (lineEnds? isFiller rest).map fun (ends, size) => (ends, size + 1)
    else some ([], 0)

/-- What line ends stand for inside a scalar: one line feed for a space, and each one after the
first for itself. -/
def fold : List Char → List Char
  | [] => []
  | first :: further =>
    if first != '\n' then first :: further
    else if further.isEmpty then [' ']
    else further

/-- A gap between two words of a scalar: what it stands for, how many characters it takes, and
whether a line ends in it. -/
structure Gap where
  text : List Char
  size : Nat
  breaksLine : Bool

/-- The gap that comes first: blanks within a line stand for themselves, line ends are folded. -/
def gap? (isFiller : Char → Bool) (rest : List Char) : Option Gap :=
  (lineEnds? isFiller rest).map fun (ends, size) =>
    if ends.isEmpty then ⟨rest.take size, size, false⟩ else ⟨fold ends, size, true⟩

end RomanScript.Document
