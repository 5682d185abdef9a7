import RomanScript.Document.Scalar

/-!
Scalars written as indented lines below a header. The lines are kept, or folded where two of them
with the same indentation follow each other; what becomes of the line ends behind the last line is
said in the header.
-/

namespace RomanScript.Document

/-- What becomes of the line ends behind the last line: none stays, one stays, or all stay. -/
inductive Chomping where
  | strip
  | clip
  | keep
  deriving DecidableEq, Repr

structure Header where
  chomping : Chomping
  indentation : Option Nat

def chomping? : Char → Option Chomping
  | '+' => some .keep
  | '-' => some .strip
  | _ => none

def indentation? (char : Char) : Option Nat :=
  if '1' ≤ char && char ≤ '9' then some (char.toNat - 48) else none

/-- The header written by the signs between the first one and the first gap: a sign for chomping and
a digit, in either order, or one of them, or none. -/
def Header.ofSigns? : List Char → Option Header
  | [] => some ⟨.clip, none⟩
  | [sign] =>
    match chomping? sign, indentation? sign with
    | some chomping, _ => some ⟨chomping, none⟩
    | none, some width => some ⟨.clip, some width⟩
    | none, none => none
  | [first, second] =>
    match chomping? first, indentation? second, indentation? first, chomping? second with
    | some chomping, some width, _, _ => some ⟨chomping, some width⟩
    | _, _, some width, some chomping => some ⟨chomping, some width⟩
    | _, _, _, _ => none
  | _ => none

/-- The largest number of spaces at the beginning of a line, of the lines that hold only spaces and
of what stands in front of the first other line. -/
def widestIndentation : Nat → Nat → List Char → Nat
  | _, widest, [] => widest
  | column, widest, char :: rest =>
    if char == ' ' then widestIndentation (column + 1) (max widest (column + 1)) rest
    else if endsLine char then widestIndentation 0 widest rest
    else widest

/-- The place behind the spaces that come first, up to column `margin`. -/
def skipMargin (margin : Nat) (cursor : Cursor) : Cursor :=
  cursor.skip (min (cursor.rest.takeWhile (· == ' ')).length (margin - cursor.column))

/-- The ends of the empty lines that come first, and the place behind them and behind the spaces up
to column `margin`. -/
def emptyLines (margin : Nat) : Nat → Cursor → List Char × Cursor
  | 0, cursor => ([], cursor)
  | limit + 1, cursor =>
    let cursor := skipMargin margin cursor
    match cursor.rest with
    | [] => ([], cursor)
    | char :: _ =>
      if endsLine char then
        let (ends, after) := emptyLines margin limit cursor.next
        (lineEnd char :: ends, after)
      else ([], cursor)

/-- Lines that have been read: their text, the end of the last one, the ends of the empty lines
behind it, and the place behind these. -/
structure Lines where
  text : List Char
  lastEnd : List Char
  emptyEnds : List Char
  after : Cursor

/-- What stands for the end of a line in front of another one, with empty lines between them.
Folding takes a line feed away if neither line begins with a further blank. -/
def lineJoint (folded : Bool) (line lineEnd emptyEnds next : List Char) : List Char :=
  if folded && lineEnd == ['\n'] && !line.head?.any isSpace && !next.head?.any isSpace then
    if emptyEnds.isEmpty then [' '] else []
  else lineEnd

/-- Reads the lines that begin at column `margin`, the ends of some empty lines before them having
been read. -/
def linesFrom (folded : Bool) (margin : Nat) : Nat → List Char → Cursor → Lines
  | 0, emptyEnds, cursor => ⟨[], [], emptyEnds, cursor⟩
  | limit + 1, emptyEnds, cursor =>
    if cursor.column != margin || cursor.rest.isEmpty then ⟨[], [], emptyEnds, cursor⟩
    else
      let line := cursor.rest.takeWhile (!endsLine ·)
      let behind := cursor.skip line.length
      let lastEnd := (behind.rest.take 1).map lineEnd
      let (further, next) := emptyLines margin behind.rest.length behind.next
      if next.column != margin || next.rest.isEmpty then
        ⟨emptyEnds ++ line, lastEnd, further, next⟩
      else
        let lines := linesFrom folded margin limit further next
        { lines with
          text := emptyEnds ++ line ++ lineJoint folded line lastEnd further next.rest ++
            lines.text }

def Lines.chomped (chomping : Chomping) (lines : Lines) : List Char :=
  match chomping with
  | .strip => lines.text
  | .clip => lines.text ++ lines.lastEnd
  | .keep => lines.text ++ lines.lastEnd ++ lines.emptyEnds

/-- The lines below a header, at a place behind it. The least column is `margin`, and a width in the
header counts from there; without it the first line gives the column. -/
def linesBelow (folded : Bool) (margin : Nat) (header : Header) (cursor : Cursor) : Lines :=
  let least := max margin 1
  match header.indentation with
  | some width =>
    let column := least + width - 1
    let (ends, first) := emptyLines column cursor.rest.length cursor
    linesFrom folded column cursor.rest.length ends first
  | none =>
    let column := max least (widestIndentation 0 0 cursor.rest)
    let blanks := cursor.rest.takeWhile fun char => char == ' ' || endsLine char
    let ends := (blanks.filter endsLine).map lineEnd
    linesFrom folded column cursor.rest.length ends (cursor.skip blanks.length)

def literalAt? (folded : Bool) (margin : Nat) (cursor : Cursor) :
    Option (List Char × Cursor) := do
  let line := cursor.next.rest.takeWhile (!endsLine ·)
  let signs := line.takeWhile (· != ' ')
  let header ← Header.ofSigns? signs
  if isEmptyLine (line.drop signs.length) then
    let lines := linesBelow folded margin header (cursor.next.skip (line.length + 1))
    return (lines.chomped header.chomping, lines.after)
  else none

end RomanScript.Document
