import RomanScript.Document
import RomanScript.Document.Mark.Scan
import RomanScript.Document.Outline

/-!
The meaning of outlines. A plain scalar is a truth value, nothing, a number or a day if it is
written like one, and a text otherwise; a quoted one is always a text.
-/

namespace RomanScript

namespace Document

def truth? (word : String) : Option Bool :=
  if ["yes", "Yes", "YES", "true", "True", "TRUE", "on", "On", "ON"].contains word then some true
  else if ["no", "No", "NO", "false", "False", "FALSE", "off", "Off", "OFF"].contains word then
    some false
  else none

def isNull (word : String) : Bool :=
  ["", "~", "null", "Null", "NULL"].contains word

def ofCodes (codes : List Nat) : Document :=
  match Outline.textOf? codes with
  | some text => string text
  | none => codePoints codes

/-- The meaning of a plain scalar. A moment must be one that there is, and the signs for merging and
for a default value mean nothing by themselves. -/
def ofPlain? (text : String) : Option Document :=
  if text == "<<" || text == "=" then none
  else if isNull text then some null
  else
    match truth? text, fraction? text.toList, wholeNumber? text.toList,
      Moment.ofText? text.toList with
    | some value, _, _, _ => some (bool value)
    | none, some value, _, _ => some (fraction value)
    | none, none, some value, _ => some (number value)
    | none, none, none, some value => if value.isReal then some (moment value) else none
    | none, none, none, none => some (string text)

def tagHead : String := "tag:yaml.org,2002:"

def sixBits? (char : Char) : Option Nat :=
  if 'A' ≤ char && char ≤ 'Z' then some (char.toNat - 65)
  else if 'a' ≤ char && char ≤ 'z' then some (char.toNat - 71)
  else if isDigit char then some (char.toNat + 4)
  else if char == '+' then some 62
  else if char == '/' then some 63
  else none

/-- The bytes that four characters at a time write. Of the current four `place` have been read, and
of their bits those in `left` have not been used up; `pads` counts the equality signs since the last
of them, which end the text once they make up for those that are missing. Other characters do not
count, but a text must not end within four characters. -/
def bytesFrom (place left pads : Nat) : List Char → Option (List UInt8)
  | [] => if place == 0 then some [] else none
  | char :: rest =>
    if char == '=' then
      if place < 2 then bytesFrom place left pads rest
      else if place + (pads + 1) < 4 then bytesFrom place left (pads + 1) rest
      else some []
    else
      match sixBits? char, place with
      | none, _ => bytesFrom place left pads rest
      | some bits, 0 => bytesFrom 1 bits 0 rest
      | some bits, 1 => (bytesFrom 2 (bits % 16) 0 rest).map ((4 * left + bits / 16).toUInt8 :: ·)
      | some bits, 2 => (bytesFrom 3 (bits % 4) 0 rest).map ((16 * left + bits / 4).toUInt8 :: ·)
      | some bits, _ => (bytesFrom 0 0 0 rest).map ((64 * left + bits).toUInt8 :: ·)

/-- The bytes that a text of ASCII characters writes. -/
def bytesOf? (text : List Char) : Option (List UInt8) :=
  if text.all fun char => char.toNat < 0x80 then bytesFrom 0 0 0 text else none

/-- The meaning of a scalar that is to be of a certain kind. In one that is to be a number no
underscore counts. -/
def ofTagged? (tag : String) (codes : List Nat) : Option Document :=
  if tag == tagHead ++ "str" then some (ofCodes codes)
  else if tag == tagHead ++ "null" then some null
  else
    match Outline.textOf? codes with
    | none => none
    | some text =>
      let digits := text.toList.filter (· != '_')
      if tag == tagHead ++ "bool" then
        (truth? (String.ofList (text.toList.map Char.toLower))).map bool
      else if tag == tagHead ++ "int" then (wholeNumber? digits).map number
      else if tag == tagHead ++ "float" then
        match fraction? digits, wholeNumber? digits with
        | some value, _ => some (fraction value)
        | none, some value =>
          let magnitude := scaled value.natAbs 0
          some (fraction (if value < 0 then -magnitude else magnitude))
        | none, none => none
      else if tag == tagHead ++ "timestamp" then
        ((Moment.ofText? text.toList).filter (·.isReal)).map moment
      else if tag == tagHead ++ "binary" then (bytesOf? text.toList).map bytes
      else none

/-- Whether a collection with this tag is what the name says; without a tag it always is. -/
def isOfKind (name : String) (tag : Option String) : Bool :=
  tag.all (· == tagHead ++ name)

/-- Whether an outline is one of the signs for merging and for a default value, which have tags of
their own. -/
def isSign (name sign : String) : Outline → Bool
  | .plain text => text == sign
  | .quoted _ => false
  | .tagged tag _ => tag == tagHead ++ name
  | .sequence tag _ | .mapping tag _ => tag == some (tagHead ++ name)

def isMerge : Outline → Bool :=
  isSign "merge" "<<"

def isDefault : Outline → Bool :=
  isSign "value" "="

mutual

/-- The code points of a scalar. A mapping with a default value stands for that. -/
def codes? : Outline → Option (List Nat)
  | .plain text => some (text.toList.map Char.toNat)
  | .quoted codes | .tagged _ codes => some codes
  | .sequence _ _ => none
  | .mapping _ entries => defaultCodes? entries

def defaultCodes? : List (Outline × Outline) → Option (List Nat)
  | [] => none
  | (key, value) :: rest => if isDefault key then codes? value else defaultCodes? rest

end

/-- The meaning of a key: the sign for a default value is a text there. -/
def keyOr (outline : Outline) (meaning : Option Document) : Option Document :=
  if isDefault outline then (codes? outline).map ofCodes else meaning

/-- The entries of a mapping, in which a later value under a key counts instead of an earlier one.
All keys must be simple. -/
def distinct? (entries : List (Document × Document)) : Option (List (Document × Document)) :=
  if entries.all (·.1.isKey) then
    some (entries.foldl (fun found (key, value) => put key value found) [])
  else none

mutual

def ofOutline? : Outline → Option Document
  | .plain text => ofPlain? text
  | .quoted codes => some (ofCodes codes)
  | .tagged tag codes => ofTagged? tag codes
  | .sequence tag items =>
    if isOfKind "seq" tag then (ofItems? items).map sequence
    else if isOfKind "omap" tag || isOfKind "pairs" tag then (ofPairs? items).map pairs
    else none
  | .mapping tag entries =>
    if isOfKind "map" tag then
      (ofParts? entries).bind fun (merged, own) => (distinct? (merged ++ own)).map mapping
    else if isOfKind "set" tag then
      (ofParts? entries).bind fun (merged, own) =>
        (distinct? (merged ++ own)).map fun found => set (found.map Prod.fst)
    else tag.bind fun tag => (defaultCodes? entries).bind (ofTagged? tag)

def ofItems? : List Outline → Option (List Document)
  | [] => some []
  | item :: rest => do
    let first ← ofOutline? item
    return first :: (← ofItems? rest)

/-- The pair that a mapping of one entry is. -/
def ofPair? : Outline → Option (Document × Document)
  | .mapping _ [(key, value)] => do return (← ofOutline? key, ← ofOutline? value)
  | _ => none

def ofPairs? : List Outline → Option (List (Document × Document))
  | [] => some []
  | item :: rest => do
    let first ← ofPair? item
    return first :: (← ofPairs? rest)

/-- The entries that others are merged into a mapping with, and those of its own. -/
def ofParts? : List (Outline × Outline) →
    Option (List (Document × Document) × List (Document × Document))
  | [] => some ([], [])
  | (key, value) :: rest =>
    if isMerge key then do
      let entries ← merged? value
      let (merged, own) ← ofParts? rest
      return (entries ++ merged, own)
    else do
      let meant ← keyOr key (ofOutline? key)
      let meaning ← ofOutline? value
      let (merged, own) ← ofParts? rest
      return (merged, (meant, meaning) :: own)

/-- The entries that a merged mapping brings, whatever its tag says, or several of them, of which
the first counts most. -/
def merged? : Outline → Option (List (Document × Document))
  | .mapping _ entries => (ofParts? entries).map fun (merged, own) => merged ++ own
  | .sequence _ items => mergedItems? items
  | _ => none

def mergedItems? : List Outline → Option (List (Document × Document))
  | [] => some []
  | .mapping _ entries :: rest => do
    let (merged, own) ← ofParts? entries
    return (← mergedItems? rest) ++ (merged ++ own)
  | _ :: _ => none

end

/-- The document of a text, if it is one; without any contents it is null. -/
def ofText? (text : String) : Option Document := do
  let marks ← Mark.ofText? text
  match ← Outline.ofMarks? marks with
  | some outline => ofOutline? outline
  | none => return null

end Document

end RomanScript
