import RomanScript.Text.Printable

/-!
Quoted texts, as messages and listings show them. A text stands between two quotation marks of one
kind; a backslash introduces whatever could not stand there as it is.
-/

namespace RomanScript.Text

/-- A text is put between apostrophes, except that one with an apostrophe and without a double
quotation mark is put between double quotation marks. -/
def quoteMark (chars : List Char) : Char :=
  if chars.contains '\x27' && !chars.contains '\x22' then '\x22' else '\x27'

/-- The last `width` digits of a number in base sixteen, with small letters. -/
def hexDigits : Nat → Nat → List Char
  | 0, _ => []
  | width + 1, value => hexDigits width (value / 16) ++ [Nat.digitChar (value % 16)]

/-- A code point by its number: two, four or eight digits, whichever suffice first. -/
def escapeCode (code : Nat) : List Char :=
  if code < 0x100 then '\\' :: 'x' :: hexDigits 2 code
  else if code < 0x10000 then '\\' :: 'u' :: hexDigits 4 code
  else '\\' :: 'U' :: hexDigits 8 code

def quoteChar (mark char : Char) : List Char :=
  if char = '\\' ∨ char = mark then ['\\', char]
  else if char = '\n' then ['\\', 'n']
  else if char = '\r' then ['\\', 'r']
  else if char = '\t' then ['\\', 't']
  else if isPrintable char then [char]
  else escapeCode char.toNat

def quoted (text : String) : String :=
  let mark := quoteMark text.toList
  String.ofList (mark :: text.toList.flatMap (quoteChar mark) ++ [mark])

/-- The quoted form of code points of which some are no characters; these are written by their
numbers. -/
def quotedCodes (points : List Nat) : String :=
  let mark := quoteMark (points.map Char.ofNat)
  let quote (code : Nat) : List Char :=
    if code.isValidChar then quoteChar mark (Char.ofNat code) else escapeCode code
  String.ofList (mark :: points.flatMap quote ++ [mark])

/-- The quoted form of bytes, which shows those that are ASCII characters as such. -/
def quotedBytes (bytes : List UInt8) : String :=
  let mark := quoteMark (bytes.map fun byte => Char.ofNat byte.toNat)
  let quote (byte : UInt8) : List Char :=
    if byte < 0x80 then quoteChar mark (Char.ofNat byte.toNat) else escapeCode byte.toNat
  String.ofList ('b' :: mark :: bytes.flatMap quote ++ [mark])

end RomanScript.Text
