import RomanScript.Document.Cursor

/-!
Scalars written on one line or on several: plain ones, which end where something else begins, and
quoted ones. A line end between two words counts as a space, and blank lines as line feeds.
-/

namespace RomanScript.Document

def isBracketMark (char : Char) : Bool :=
  char == ',' || char == '[' || char == ']' || char == '\x7b' || char == '\x7d'

/-- Whether a word of a plain scalar ends in front of these characters; `flow` says whether it
stands between brackets. -/
def endsWord (flow : Bool) : List Char → Bool
  | [] => true
  | char :: rest =>
    isBlank char ||
      (char == ':' && (startsBlank rest || (flow && rest.head?.any isBracketMark))) ||
      (flow && (char == '?' || isBracketMark char))

def wordLength (flow : Bool) : List Char → Nat
  | [] => 0
  | char :: rest => if endsWord flow (char :: rest) then 0 else wordLength flow rest + 1

def isIndicator (char : Char) : Bool :=
  isBracketMark char ||
    ['-', '?', ':', '#', '&', '*', '!', '|', '>', '\x27', '\x22', '%', '@', '\x60'].contains char

/-- Whether a plain scalar begins with these characters. A dash begins one if something follows it,
and so do, except between brackets, a question mark and a colon. -/
def startsPlain (flow : Bool) : List Char → Bool
  | [] => false
  | char :: rest =>
    !(isBlank char || isIndicator char) ||
      (!startsBlank rest && (char == '-' || (!flow && (char == '?' || char == ':'))))

/-- The gap behind a word of a plain scalar; where the document ends it is empty. -/
def plainGap (rest : List Char) : Gap :=
  (gap? (· == ' ') rest).getD ⟨[], 0, true⟩

/-- A plain scalar that has been read, the place behind it, and whether a line ends before that. -/
structure Plain where
  text : List Char
  after : Cursor
  breaksLine : Bool

/-- Reads on in a plain scalar of which some words and the gap behind them have been read. Except
between brackets, it goes on only at column `margin` or beyond. The limit on the number of words is
the number of characters. -/
def Plain.extend (flow : Bool) (margin : Nat) : Nat → Gap → Plain → Plain
  | 0, _, plain => plain
  | limit + 1, gap, plain =>
    let rest := plain.after.rest
    let size := if rest.head? == some '#' then 0 else wordLength flow rest
    if size == 0 then plain
    else
      let behind := plain.after.skip size
      let next := plainGap behind.rest
      let longer : Plain :=
        ⟨plain.text ++ gap.text ++ rest.take size, behind.skip next.size, next.breaksLine⟩
      if next.text.isEmpty || (!flow && longer.after.column < margin) then longer
      else extend flow margin limit next longer

def plainAt (flow : Bool) (margin : Nat) (cursor : Cursor) : Plain :=
  Plain.extend flow margin cursor.rest.length ⟨[], 0, false⟩ ⟨[], cursor, false⟩

def shortEscape? : Char → Option Nat
  | '0' => some 0x0
  | 'a' => some 0x7
  | 'b' => some 0x8
  | 't' => some 0x9
  | '\t' => some 0x9
  | 'n' => some 0xa
  | 'v' => some 0xb
  | 'f' => some 0xc
  | 'r' => some 0xd
  | 'e' => some 0x1b
  | ' ' => some 0x20
  | '\x22' => some 0x22
  | '/' => some 0x2f
  | '\\' => some 0x5c
  | 'N' => some 0x85
  | '_' => some 0xa0
  | 'L' => some 0x2028
  | 'P' => some 0x2029
  | _ => none

def escapeWidth? : Char → Option Nat
  | 'x' => some 2
  | 'u' => some 4
  | 'U' => some 8
  | _ => none

def digitValue? (char : Char) : Option Nat :=
  if '0' ≤ char && char ≤ '9' then some (char.toNat - 48)
  else if 'a' ≤ char && char ≤ 'f' then some (char.toNat - 87)
  else if 'A' ≤ char && char ≤ 'F' then some (char.toNat - 55)
  else none

/-- The number that digits of a base write, after `value` has been read. -/
def numberFrom (base : Nat) : Nat → List Char → Option Nat
  | value, [] => some value
  | value, char :: rest =>
    match digitValue? char with
    | some digit => if digit < base then numberFrom base (base * value + digit) rest else none
    | none => none

def codePoint? (width : Nat) (rest : List Char) : Option Nat :=
  let digits := rest.take width
  if digits.length == width then (numberFrom 16 0 digits).filter (· ≤ 0x10ffff) else none

/-- What an escape stands for and how many characters it takes, given what follows its backslash.
An escaped line end stands for the blank lines behind it only. -/
def escape? : List Char → Option (List Nat × Nat)
  | [] => none
  | char :: rest =>
    match shortEscape? char, escapeWidth? char with
    | some code, _ => some ([code], 1)
    | none, some width => (codePoint? width rest).map fun code => ([code], width + 1)
    | none, none =>
      if endsLine char then
        (lineEnds? isSpace (char :: rest)).map fun (ends, size) =>
          (ends.tail.map Char.toNat, size)
      else none

/-- The code points of a quoted scalar from a place inside it on, and the place behind its closing
mark. Between apostrophes an apostrophe is written twice; between double quotation marks there are
escapes. -/
def quotedFrom (mark : Char) : Nat → Cursor → Option (List Nat × Cursor)
  | 0, _ => none
  | limit + 1, cursor =>
    match cursor.rest with
    | [] => none
    | char :: rest =>
      let continued (codes : List Nat) (size : Nat) : Option (List Nat × Cursor) :=
        (quotedFrom mark limit (cursor.skip size)).map fun (more, after) => (codes ++ more, after)
      if char == mark then
        if mark == '\x27' && rest.head? == some '\x27' then continued [0x27] 2
        else some ([], cursor.next)
      else if char == '\\' && mark == '\x22' then
        match escape? rest with
        | some (codes, size) => continued codes (size + 1)
        | none => none
      else if isBlank char then
        match gap? isSpace cursor.rest with
        | some gap => continued (gap.text.map Char.toNat) gap.size
        | none => none
      else continued [char.toNat] 1

def quotedAt? (mark : Char) (cursor : Cursor) : Option (List Nat × Cursor) :=
  quotedFrom mark cursor.rest.length cursor.next

end RomanScript.Document
