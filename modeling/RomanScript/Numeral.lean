/-!
Roman numerals. A numeral writes its thousands, hundreds, tens and units one after another, and
the letter `N` alone stands for zero.
-/

namespace RomanScript.Numeral

def isNumeralLetter (char : Char) : Bool :=
  ['I', 'V', 'X', 'L', 'C', 'D', 'M', 'N'].contains char

/-- What follows after at most `count` copies of `letter`. -/
def skipUpTo (letter : Char) : Nat → List Char → List Char
  | count + 1, char :: rest => if char = letter then skipUpTo letter count rest else char :: rest
  | _, chars => chars

/-- What follows after one decimal place written with the letters for one, five and ten of it: nine
or four by subtraction, or else an optional five and up to three ones. -/
def skipPlace (one five ten : Char) (chars : List Char) : List Char :=
  match chars with
  | first :: second :: rest =>
    if first = one ∧ (second = ten ∨ second = five) then rest
    else skipUpTo one 3 (skipUpTo five 1 chars)
  | _ => skipUpTo one 3 (skipUpTo five 1 chars)

/-- What follows after the four places, up to three thousands among them. -/
def skipPlaces (chars : List Char) : List Char :=
  skipPlace 'I' 'V' 'X' (skipPlace 'X' 'L' 'C' (skipPlace 'C' 'D' 'M' (skipUpTo 'M' 3 chars)))

/-- Some letters, and nothing beyond the four places. -/
def isWellFormed (chars : List Char) : Bool :=
  !chars.isEmpty && (skipPlaces chars).isEmpty

/-- A text is a numeral when it is the sign for zero or well formed. -/
def isNumeral (text : String) : Bool :=
  text == "N" || isWellFormed text.toList

def letterValue : Char → Int
  | 'I' => 1
  | 'V' => 5
  | 'X' => 10
  | 'L' => 50
  | 'C' => 100
  | 'D' => 500
  | 'M' => 1000
  | _ => 0

/-- A letter counts negatively before a greater one and positively elsewhere. -/
def sumOfLetters : List Char → Int
  | [] => 0
  | [letter] => letterValue letter
  | letter :: next :: rest =>
    if letterValue letter < letterValue next then
      sumOfLetters (next :: rest) - letterValue letter
    else
      sumOfLetters (next :: rest) + letterValue letter

def value? (text : String) : Option Int :=
  if text == "N" then some 0
  else if isWellFormed text.toList then some (sumOfLetters text.toList)
  else none

/-- Exactly the numerals have a value. -/
theorem isSome_value? (text : String) : (value? text).isSome = isNumeral text := by
  unfold value? isNumeral
  by_cases zero : (text == "N") = true
  · simp [zero]
  · by_cases wellFormed : isWellFormed text.toList = true
    · simp [zero, wellFormed]
    · simp [zero, wellFormed]

end RomanScript.Numeral
