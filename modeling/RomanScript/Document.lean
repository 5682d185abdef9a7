import RomanScript.Document.Moment
import RomanScript.Text.Quoted
import RomanScript.Text.Shortest

/-!
Configuration documents: what a configuration file holds, before anything is made of it. The
entries of a mapping keep their order, and their keys may be of any simple kind.
-/

namespace RomanScript

/-- A value in a configuration file. A string of code points is one that is no text, because not
every one of them is a character. Pairs are a list of them in which, other than in a mapping, a key
may be anything and may come again. -/
inductive Document where
  | null
  | bool (value : Bool)
  | number (value : Int)
  | fraction (value : Float)
  | moment (value : Document.Moment)
  | string (value : String)
  | codePoints (points : List Nat)
  | bytes (values : List UInt8)
  | sequence (items : List Document)
  | pairs (entries : List (Document × Document))
  | set (elements : List Document)
  | mapping (entries : List (Document × Document))
  deriving Inhabited, Repr

namespace Document

/-- The key under which a truth value counts is that of its number, and so it is for a fraction that
is equal to a whole number. -/
def keyNumber? : Document → Option Int
  | bool value => some (if value then 1 else 0)
  | number value => some value
  | fraction value => Text.whole? value
  | _ => none

/-- Whether two documents are the same key; only simple documents are keys. -/
def sameKey (left right : Document) : Bool :=
  match left, right with
  | null, null => true
  | string value, string value' => value == value'
  | codePoints points, codePoints points' => points == points'
  | bytes values, bytes values' => values == values'
  | moment value, moment value' => value == value'
  | _, _ =>
    match left.keyNumber?, right.keyNumber? with
    | some value, some value' => value == value'
    | some _, none | none, some _ => false
    | none, none =>
      match left, right with
      | fraction value, fraction value' => value.toBits == value'.toBits
      | _, _ => false

def isKey : Document → Bool
  | sequence _ | pairs _ | set _ | mapping _ => false
  | _ => true

/-- The entries after one more has been read: a key that was there already keeps its place and takes
the new value. -/
def put (key value : Document) : List (Document × Document) → List (Document × Document)
  | [] => [(key, value)]
  | entry :: rest =>
    if entry.1.sameKey key then (entry.1, value) :: rest else entry :: put key value rest

def entry? (key : String) : Document → Option Document
  | mapping entries => (entries.find? (·.1.sameKey (string key))).map (·.2)
  | _ => none

mutual

/-- How a document appears in messages. The elements of a set have no order of their own; they
appear in the one in which they were written. -/
def display : Document → String
  | null => "None"
  | bool true => "True"
  | bool false => "False"
  | number value => Text.decimal value
  | fraction value => Text.shortestDecimal value
  | moment value => value.display
  | string value => Text.quoted value
  | codePoints points => Text.quotedCodes points
  | bytes values => Text.quotedBytes values
  | sequence items => "[" ++ String.intercalate ", " (displayItems items) ++ "]"
  | pairs entries => "[" ++ String.intercalate ", " (displayPairs entries) ++ "]"
  | set [] => "set()"
  | set elements => "\x7b" ++ String.intercalate ", " (displayItems elements) ++ "\x7d"
  | mapping entries => "\x7b" ++ String.intercalate ", " (displayEntries entries) ++ "\x7d"

def displayItems : List Document → List String
  | [] => []
  | item :: rest => display item :: displayItems rest

def displayPairs : List (Document × Document) → List String
  | [] => []
  | (key, value) :: rest => ("(" ++ display key ++ ", " ++ display value ++ ")") :: displayPairs rest

def displayEntries : List (Document × Document) → List String
  | [] => []
  | (key, value) :: rest => (display key ++ ": " ++ display value) :: displayEntries rest

end

end Document

end RomanScript
