import RomanScript.Document.Scalar

/-!
Marks: the pieces of which a document is made. Brackets, dashes and colons are marks, and so are
scalars, names, tags and directives; where indentation begins or ends a block there is a mark too,
although nothing is written for it.
-/

namespace RomanScript.Document

inductive Mark where
  | version (major : Nat)
  | handle (name head : String)
  | remark
  | documentStart
  | documentEnd
  | blockSequence
  | blockMapping
  | blockEnd
  | openBracket
  | closeBracket
  | openBrace
  | closeBrace
  | comma
  | dash
  | key
  | colon
  | anchor (name : String)
  | reference (name : String)
  | tag (handle : Option String) (rest : String)
  | plain (text : String)
  | quoted (codes : List Nat)
  deriving DecidableEq, Repr

def isAlphanumeric (char : Char) : Bool :=
  ('0' ≤ char && char ≤ '9') || ('A' ≤ char && char ≤ 'Z') || ('a' ≤ char && char ≤ 'z')

def isNameChar (char : Char) : Bool :=
  isAlphanumeric char || char == '-' || char == '_'

def name? (rest : List Char) : Option String :=
  let name := rest.takeWhile isNameChar
  if name.isEmpty then none else some (String.ofList name)

/-- Whether nothing that comes first can run into a name. -/
def endsName (rest : List Char) : Bool :=
  startsBlank rest ||
    rest.head?.any (['?', ':', ',', ']', '\x7d', '%', '@', '\x60'].contains ·)

def anchorName? (rest : List Char) : Option String :=
  (name? rest).filter fun name => endsName (rest.drop name.length)

def isTagChar (char : Char) : Bool :=
  isAlphanumeric char ||
    ['-', ';', '/', '?', ':', '@', '&', '=', '+', '$', ',', '_', '.', '!', '~', '*', '\x27', '(',
      ')', '[', ']'].contains char

def tagBody? (rest : List Char) : Option String :=
  let body := rest.takeWhile isTagChar
  if body.isEmpty then none else some (String.ofList body)

/-- The handle that comes first, and its size, given what follows its exclamation mark: the mark
alone in front of a space, or a name, or nothing, between two such marks. -/
def handle? (rest : List Char) : Option (String × Nat) :=
  if rest.head? == some ' ' then some ("!", 0)
  else
    let name := rest.takeWhile isNameChar
    if (rest.drop name.length).head? == some '!' then
      some (String.ofList ('!' :: name ++ ['!']), name.length + 1)
    else none

/-- The tag that comes first, and its size, given what follows its exclamation mark: a whole tag
between angle brackets, the mark alone, or a body behind a handle. -/
def tag? (rest : List Char) : Option (Mark × Nat) := do
  let (mark, size) ←
    if rest.head? == some '<' then do
      let body ← tagBody? rest.tail
      if (rest.tail.drop body.length).head? == some '>' then
        some (Mark.tag none body, body.length + 2)
      else none
    else if startsBlank rest then some (Mark.tag none "!", 0)
    else if (rest.takeWhile fun char => !(char == ' ' || endsLine char)).contains '!' then do
      let (handle, size) ← handle? rest
      let body ← tagBody? (rest.drop size)
      some (Mark.tag (some handle) body, size + body.length)
    else do
      let body ← tagBody? rest
      some (Mark.tag (some "!") body, body.length)
  if startsGap (rest.drop size) then some (mark, size) else none

/-- Whether nothing comes first in a line but a space. -/
def startsSpace (rest : List Char) : Bool :=
  rest.head?.all (· == ' ')

def leadingNumber? (line : List Char) : Option (Nat × List Char) :=
  let digits := line.takeWhile fun char => '0' ≤ char && char ≤ '9'
  if digits.isEmpty then none
  else (numberFrom 10 0 digits).map fun number => (number, line.drop digits.length)

def version? (line : List Char) : Option (Mark × List Char) := do
  let (major, rest) ← leadingNumber? line
  if rest.head? == some '.' then
    let (_, rest) ← leadingNumber? rest.tail
    if startsSpace rest then some (.version major, rest) else none
  else none

def declaration? (line : List Char) : Option (Mark × List Char) := do
  if line.head? == some '!' then
    let (name, size) ← handle? line.tail
    let rest := line.tail.drop size
    if rest.head? == some ' ' then
      let body := rest.dropWhile (· == ' ')
      let head ← tagBody? body
      let rest := body.drop head.length
      if startsSpace rest then some (.handle name head, rest) else none
    else none
  else none

/-- The directive that a line gives behind its percent sign. Those of an unknown name are remarks;
behind the others only a comment may follow. -/
def directive? (line : List Char) : Option Mark := do
  let name ← name? line
  let rest := line.drop name.length
  if startsSpace rest then
    let body := rest.dropWhile (· == ' ')
    let (mark, rest) ←
      match name with
      | "YAML" => version? body
      | "TAG" => declaration? body
      | _ => some (Mark.remark, [])
    if isEmptyLine rest then some mark else none
  else none

end RomanScript.Document
