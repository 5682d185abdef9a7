import RomanScript.Text.Decimal
import RomanScript.Text.Quoted

/-!
JSON values, the form in which programs, trees and reports leave the library. Members of an object
stand in the order in which they were given.
-/

namespace RomanScript

/-- A JSON value; all numbers are whole. -/
inductive Json where
  | null
  | bool (value : Bool)
  | number (value : Int)
  | string (value : String)
  | array (elements : List Json)
  | object (members : List (String × Json))
  deriving Inhabited, Repr

namespace Json

def member? (key : String) : Json → Option Json
  | object members => (members.find? (·.1 == key)).map (·.2)
  | _ => none

def escapeUnit (unit : Nat) : List Char :=
  '\\' :: 'u' :: Text.hexDigits 4 unit

def stringChar (char : Char) : List Char :=
  if char = '\x22' then ['\\', '\x22']
  else if char = '\\' then ['\\', '\\']
  else if char = '\n' then ['\\', 'n']
  else if char = '\r' then ['\\', 'r']
  else if char = '\t' then ['\\', 't']
  else if char = '\x08' then ['\\', 'b']
  else if char = '\x0c' then ['\\', 'f']
  else if 0x20 ≤ char.toNat ∧ char.toNat < 0x7f then [char]
  else if char.toNat < 0x10000 then escapeUnit char.toNat
  else
    escapeUnit (0xd800 + (char.toNat - 0x10000) / 0x400) ++
      escapeUnit (0xdc00 + (char.toNat - 0x10000) % 0x400)

def stringForm (text : String) : String :=
  String.ofList ('\x22' :: text.toList.flatMap stringChar ++ ['\x22'])

/-- The start of a line that is indented by `level` steps of two blanks. -/
def lineStart (level : Nat) : String :=
  "\n" ++ String.join (List.replicate level "  ")

mutual

/-- A value over several lines, each element and each member on a line of its own, one step deeper
than the brackets around it. -/
def indented (level : Nat) : Json → String
  | null => "null"
  | bool true => "true"
  | bool false => "false"
  | number value => Text.decimal value
  | string value => stringForm value
  | array [] => "[]"
  | array (first :: rest) =>
    "[" ++ lineStart (level + 1) ++ indented (level + 1) first ++ indentedElements level rest
  | object [] => "\x7b\x7d"
  | object ((key, first) :: rest) =>
    "\x7b" ++ lineStart (level + 1) ++ stringForm key ++ ": " ++ indented (level + 1) first ++
      indentedMembers level rest

def indentedElements (level : Nat) : List Json → String
  | [] => lineStart level ++ "]"
  | next :: rest =>
    "," ++ lineStart (level + 1) ++ indented (level + 1) next ++ indentedElements level rest

def indentedMembers (level : Nat) : List (String × Json) → String
  | [] => lineStart level ++ "\x7d"
  | (key, next) :: rest =>
    "," ++ lineStart (level + 1) ++ stringForm key ++ ": " ++ indented (level + 1) next ++
      indentedMembers level rest

end

end Json

end RomanScript
