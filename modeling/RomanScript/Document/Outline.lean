import RomanScript.Document.Mark

/-!
Outlines: what a document is made of, before the scalars in it are understood. A reference stands
for a copy of what its anchor names.
-/

namespace RomanScript.Document

/-- A part of a document. A tag says what the part is to be; without one that depends on its form,
and for a scalar also on whether it is quoted. -/
inductive Outline where
  | plain (text : String)
  | quoted (codes : List Nat)
  | tagged (tag : String) (codes : List Nat)
  | sequence (tag : Option String) (items : List Outline)
  | mapping (tag : Option String) (entries : List (Outline × Outline))
  deriving Inhabited, Repr

namespace Outline

def empty : Outline :=
  .plain ""

def textOf? (codes : List Nat) : Option String :=
  if codes.all fun code => code.isValidChar then some (String.ofList (codes.map Char.ofNat))
  else none

/-- What has not been read yet, and what the anchors so far name. -/
structure Source where
  marks : List Mark
  anchors : List (String × Outline)

abbrev Reading := StateT Source Option

def sees (test : Mark → Bool) : Reading Bool := do
  return (← get).marks.head?.any test

def advance : Reading Unit :=
  modify fun source => { source with marks := source.marks.tail }

def expect (mark : Mark) : Reading Unit := do
  if ← sees (· == mark) then advance else failure

/-- Reads a part, unless the next mark shows that nothing is written for it. -/
def orEmpty (test : Mark → Bool) (part : Reading Outline) : Reading Outline := do
  if ← sees test then return empty else part

/-- The beginning that a handle stands for. -/
abbrev Handles := List (String × String)

def usualHandles : Handles :=
  [("!", "!"), ("!!", "tag:yaml.org,2002:")]

/-- Reads an anchor, if there is one; no other one may have its name. -/
def anchor : Reading (Option String) := do
  let source ← get
  match source.marks with
  | .anchor name :: _ =>
    if source.anchors.any (·.1 == name) then failure
    else do
      advance
      return some name
  | _ => return none

/-- Reads a tag, if there is one; its handle must be known. -/
def tag (handles : Handles) : Reading (Option String) := do
  match (← get).marks with
  | .tag none rest :: _ => do
    advance
    return some rest
  | .tag (some handle) rest :: _ =>
    match handles.lookup handle with
    | some head => do
      advance
      return some (head ++ rest)
    | none => failure
  | _ => return none

def properties (handles : Handles) : Reading (Option String × Option String) := do
  match ← anchor with
  | some name => return (some name, ← tag handles)
  | none => do
    let tag ← tag handles
    return (← anchor, tag)

def record (name : Option String) (part : Outline) : Reading Unit := do
  match name with
  | none => return
  | some name =>
    if (← get).anchors.any (·.1 == name) then failure
    else modify fun source => { source with anchors := (name, part) :: source.anchors }

def partNamed (name : String) : Reading Outline := do
  match (← get).anchors.lookup name with
  | some part => return part
  | none => failure

/-- The part made by a scalar with code points `codes`. The tag that is an exclamation mark lets
every scalar be understood like a plain one. -/
def ofScalar (tag : Option String) (isPlain : Bool) (codes : List Nat) : Outline :=
  match tag with
  | none =>
    match isPlain, textOf? codes with
    | true, some text => .plain text
    | _, _ => .quoted codes
  | some tag =>
    match tag == "!", textOf? codes with
    | true, some text => .plain text
    | true, none => .quoted codes
    | false, _ => .tagged tag codes

/-- The tag of a collection; an exclamation mark is none. -/
def collectionTag (tag : Option String) : Option String :=
  tag.filter (· != "!")

/-! Each of the following readings takes readings for the parts of a collection. The limit on the
number of entries is that of the marks. -/

/-- The marks that end an item of a sequence that stands in a mapping without indentation. -/
def endsItem (mark : Mark) : Bool :=
  mark == .dash || mark == .key || mark == .colon || mark == .blockEnd

def endsPart (mark : Mark) : Bool :=
  mark == .key || mark == .colon || mark == .blockEnd

/-- Reads the items behind dashes; `ends` holds of the marks before which an item is empty. -/
def dashedItems (ends : Mark → Bool) (item : Reading Outline) : Nat → Reading (List Outline)
  | 0 => failure
  | limit + 1 => do
    if ← sees (· == .dash) then
      advance
      let first ← orEmpty ends item
      return first :: (← dashedItems ends item limit)
    else return []

def valueOr (ends : Mark → Bool) (value : Reading Outline) : Reading Outline := do
  if ← sees (· == .colon) then
    advance
    orEmpty ends value
  else return empty

/-- Reads the entries of a block. Each begins with the mark of its key; a colon without one begins
none. -/
def blockEntries (part : Reading Outline) : Nat → Reading (List (Outline × Outline))
  | 0 => failure
  | limit + 1 => do
    if ← sees (· == .key) then
      advance
      let key ← orEmpty endsPart part
      let value ← valueOr endsPart part
      return (key, value) :: (← blockEntries part limit)
    else return []

def endsFlowPart (closing : Mark) (mark : Mark) : Bool :=
  mark == .comma || mark == closing

def flowPair (closing : Mark) (part : Reading Outline) : Reading (Outline × Outline) := do
  expect .key
  let key ← orEmpty (fun mark => mark == .colon || endsFlowPart closing mark) part
  let value ← valueOr (endsFlowPart closing) part
  return (key, value)

/-- Reads entries parted by commas up to the closing bracket, which is read too. -/
def flowEntries {α : Type} (closing : Mark) (entry : Reading α) :
    Bool → Nat → Reading (List α)
  | _, 0 => failure
  | isFirst, limit + 1 => do
    if ← sees (· == closing) then
      advance
      return []
    else
      if !isFirst then expect .comma
      if ← sees (· == closing) then
        advance
        return []
      else
        let first ← entry
        return first :: (← flowEntries closing entry false limit)

/-- An item between square brackets: a part, or a mapping of one entry. -/
def flowItem (part : Reading Outline) : Reading Outline := do
  if ← sees (· == .key) then
    return .mapping none [← flowPair .closeBracket part]
  else part

/-- An entry between braces; a part without a colon is a key with an empty value. -/
def flowEntry (part : Reading Outline) : Reading (Outline × Outline) := do
  if ← sees (· == .key) then flowPair .closeBrace part
  else return (← part, empty)

/-- Where a part stands: between brackets, in a block, or behind a key or a colon of a block, where
the items of a sequence need no indentation. -/
inductive Position where
  | flow
  | block
  | entry
  deriving DecidableEq

/-- Reads what follows the properties of a part; `part` reads the parts inside of it. -/
def content (part : Position → Reading Outline) (position : Position) (tag : Option String)
    (isNamed : Bool) : Reading Outline := do
  let source ← get
  let limit := source.marks.length + 1
  match source.marks with
  | .plain text :: _ => do
    advance
    return ofScalar tag true (text.toList.map Char.toNat)
  | .quoted codes :: _ => do
    advance
    return ofScalar tag false codes
  | .openBracket :: _ => do
    advance
    let items ← flowEntries .closeBracket (flowItem (part .flow)) true limit
    return .sequence (collectionTag tag) items
  | .openBrace :: _ => do
    advance
    let entries ← flowEntries .closeBrace (flowEntry (part .flow)) true limit
    return .mapping (collectionTag tag) entries
  | next :: _ =>
    if position == .entry && next == .dash then
      let items ← dashedItems endsItem (part .block) limit
      return .sequence (collectionTag tag) items
    else if position != .flow && next == .blockSequence then
      advance
      let items ← dashedItems (fun mark => mark == .dash || mark == .blockEnd) (part .block) limit
      expect .blockEnd
      return .sequence (collectionTag tag) items
    else if position != .flow && next == .blockMapping then
      advance
      let entries ← blockEntries (part .entry) limit
      expect .blockEnd
      return .mapping (collectionTag tag) entries
    else if isNamed || tag.isSome then return ofScalar tag true []
    else failure
  | [] => if isNamed || tag.isSome then return ofScalar tag true [] else failure

/-- Reads a part, or a reference to one. Every part inside another one has a mark of its own, or at
least one in front of it, so that the number of marks is a limit. -/
def part (handles : Handles) : Nat → Position → Reading Outline
  | 0, _ => failure
  | limit + 1, position => do
    match (← get).marks with
    | .reference name :: _ => do
      advance
      partNamed name
    | _ => do
      let (name, tag) ← properties handles
      let outline ← content (part handles limit) position tag name.isSome
      record name outline
      return outline

def isDirective : Mark → Bool
  | .version _ | .handle _ _ | .remark => true
  | _ => false

/-- The handles that directives declare, the later of two of one name not being allowed, nor a
second version, nor a version other than one. -/
def declared? : Bool → Handles → List Mark → Option Handles
  | _, handles, [] => some handles
  | versioned, handles, .version major :: rest =>
    if versioned || major != 1 then none else declared? true handles rest
  | versioned, handles, .handle name head :: rest =>
    if (handles.lookup name).isSome then none else declared? versioned ((name, head) :: handles) rest
  | versioned, handles, _ :: rest => declared? versioned handles rest

def endsDocument (mark : Mark) : Bool :=
  isDirective mark || mark == .documentStart || mark == .documentEnd

/-- Reads the only document, if there is one. Directives need the mark for its start, and behind it
nothing but marks for its end may follow. -/
def document : Reading (Option Outline) := do
  let source ← get
  let limit := source.marks.length + 1
  let directives := source.marks.takeWhile isDirective
  let outline ←
    if source.marks.isEmpty then pure none
    else if directives.isEmpty && source.marks.head? != some .documentStart then
      some <$> part usualHandles limit .block
    else do
      let handles ← declared? false [] directives
      set { source with marks := source.marks.drop directives.length }
      expect .documentStart
      if (← get).marks.isEmpty then pure (some empty)
      else some <$> orEmpty endsDocument (part (handles ++ usualHandles) limit .block)
  if (← get).marks.all (· == .documentEnd) then return outline else failure

def ofMarks? (marks : List Mark) : Option (Option Outline) :=
  (document.run ⟨marks, []⟩).map (·.1)

end Outline

end RomanScript.Document
