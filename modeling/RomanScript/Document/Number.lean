import RomanScript.Document.Scalar

/-!
Numbers as plain scalars write them: whole numbers in decimal, binary, octal, hexadecimal and
base-sixty notation, and fractions with a point. Underscores between digits do not count.
-/

namespace RomanScript.Document

def isDigit (char : Char) : Bool :=
  '0' ≤ char && char ≤ '9'

def isDigitOrGap (char : Char) : Bool :=
  isDigit char || char == '_'

/-- Whether a number with this sign is negative, and the text behind the sign, if there is one. -/
def splitSign : List Char → Bool × List Char
  | '-' :: rest => (true, rest)
  | '+' :: rest => (false, rest)
  | text => (false, text)

/-- The number that digits of a base write, underscores among them not counting; there must be a
digit. -/
def digitsValue? (base : Nat) (text : List Char) : Option Nat :=
  let digits := text.filter (· != '_')
  if digits.isEmpty then none else numberFrom base 0 digits

/-- The number that a digit in base sixty writes: at most two decimal digits, below sixty. -/
def sixtieth? (text : List Char) : Option Nat :=
  if text.length ≤ 2 && text.all isDigit then (digitsValue? 10 text).filter (· < 60) else none

def sixtieths? : Nat → List (List Char) → Option Nat
  | value, [] => some value
  | value, part :: rest => (sixtieth? part).bind fun digit => sixtieths? (60 * value + digit) rest

/-- The magnitude that a text without a sign writes, if it writes a whole number. -/
def magnitude? : List Char → Option Nat
  | '0' :: 'b' :: digits => digitsValue? 2 digits
  | '0' :: 'x' :: digits => digitsValue? 16 digits
  | '0' :: digits => digitsValue? 8 ('0' :: digits)
  | text =>
    match text.splitOn ':' with
    | leading :: rest =>
      if leading.head?.any isDigit then
        (digitsValue? 10 leading).bind fun value => sixtieths? value rest
      else none
    | [] => none

def wholeNumber? (text : List Char) : Option Int :=
  let (isNegative, rest) := splitSign text
  (magnitude? rest).map fun magnitude => if isNegative then -Int.ofNat magnitude else magnitude

/-- A mantissa times a power of ten, as the nearest binary number. Beyond the range of such numbers
the exponent no longer matters. -/
def scaled (mantissa : Nat) (exponent : Int) : Float :=
  let size : Int := mantissa.repr.length
  if mantissa == 0 then 0
  else if 400 < size + exponent then 1 / 0
  else if size + exponent < -400 then 0
  else Float.ofScientific mantissa (exponent < 0) exponent.natAbs

/-- The exponent that a text gives: nothing, or a letter, a sign and digits. -/
def exponent? : List Char → Option Int
  | [] => some 0
  | [_] => none
  | letter :: sign :: digits =>
    if (letter == 'e' || letter == 'E') && (sign == '+' || sign == '-') && digits.all isDigit then
      (digitsValue? 10 digits).map fun value => if sign == '-' then -Int.ofNat value else value
    else none

def pointed (whole places : List Char) (exponent : Int) : Float :=
  let places := places.filter (· != '_')
  scaled ((digitsValue? 10 (whole ++ places)).getD 0) (exponent - places.length)

/-- The value of the parts of a number in base sixty, the last of them first, each weighing sixty
times as much as the one before. -/
def sixtiethsSum : Float → Nat → List Nat → Float
  | value, _, [] => value
  | value, weight, part :: rest =>
    sixtiethsSum (value + scaled part 0 * scaled weight 0) (60 * weight) rest

/-- The value of a number in base sixty of which the last digit has a fraction behind it. -/
def sixtiethsFraction? (whole places : List Char) : Option Float :=
  match whole.splitOn ':' with
  | leading :: rest =>
    match rest.reverse with
    | [] => none
    | last :: _ => do
      let parts ← rest.mapM sixtieth?
      let first ← digitsValue? 10 leading
      let higher := (first :: parts.dropLast).reverse
      if leading.head?.any isDigit then some (sixtiethsSum (pointed last places 0) 60 higher)
      else none
  | [] => none

def fractionMagnitude? (isSigned : Bool) (text : List Char) : Option Float :=
  let whole := text.takeWhile (· != '.')
  match text.drop whole.length with
  | [] => none
  | _ :: behind =>
    let places := behind.takeWhile isDigitOrGap
    let rest := behind.drop places.length
    if whole.isEmpty then
      if ["inf", "Inf", "INF"].contains (String.ofList behind) then some (1 / 0)
      else if isSigned then none
      else if ["nan", "NaN", "NAN"].contains (String.ofList behind) then some (0 / 0)
      else if places.head?.any isDigit then (exponent? rest).map (pointed [] places ·)
      else none
    else if whole.head?.any isDigit && whole.all isDigitOrGap then
      (exponent? rest).map (pointed whole places ·)
    else if rest.isEmpty then sixtiethsFraction? whole places
    else none

def fraction? (text : List Char) : Option Float :=
  let (isNegative, rest) := splitSign text
  (fractionMagnitude? (rest.length != text.length) rest).map fun magnitude =>
    if isNegative then -magnitude else magnitude

end RomanScript.Document
