import RomanScript.Document.Number
import RomanScript.Text.Decimal

/-!
Days and moments as plain scalars write them: a date in figures, and behind it, for a moment, the
time of day and how far the clock is ahead of universal time.
-/

namespace RomanScript.Document

/-- A time of day; `offset` counts the minutes by which the clock is ahead, if that is known. -/
structure Clock where
  hour : Nat
  minute : Nat
  second : Nat
  micro : Nat
  offset : Option Int
  deriving DecidableEq, Repr

structure Moment where
  year : Nat
  month : Nat
  day : Nat
  clock : Option Clock
  deriving DecidableEq, Repr

namespace Moment

/-- Every fourth year is a leap year, except full centuries that are not a multiple of four. -/
def isLeapYear (year : Nat) : Bool :=
  year % 4 == 0 && (year % 100 != 0 || year % 400 == 0)

def daysOf (year month : Nat) : Nat :=
  if month == 2 then if isLeapYear year then 29 else 28
  else if [4, 6, 9, 11].contains month then 30
  else 31

def isClock (clock : Clock) : Bool :=
  clock.hour < 24 && clock.minute < 60 && clock.second < 60 &&
    clock.offset.all fun offset => offset.natAbs < 24 * 60

def isReal (moment : Moment) : Bool :=
  1 ≤ moment.year && 1 ≤ moment.month && moment.month ≤ 12 && 1 ≤ moment.day &&
    moment.day ≤ daysOf moment.year moment.month && moment.clock.all isClock

/-- A number of at least `least` and at most `most` digits at the beginning of a text, and what
follows it. -/
def figure? (least most : Nat) (text : List Char) : Option (Nat × List Char) :=
  let digits := (text.take most).takeWhile isDigit
  if digits.length < least then none
  else (numberFrom 10 0 digits).map fun value => (value, text.drop digits.length)

def after? (char : Char) : List Char → Option (List Char)
  | [] => none
  | first :: rest => if first == char then some rest else none

/-- Millionths, from the digits of a fraction; further digits do not count. -/
def micros (digits : List Char) : Nat :=
  let kept := digits.take 6
  ((numberFrom 10 0 kept).getD 0) * Nat.pow 10 (6 - kept.length)

/-- How far a clock is ahead, from what follows its time: nothing, or behind blanks a letter or a
sign, hours and perhaps minutes. -/
def offset? (text : List Char) : Option (Option Int) :=
  if text.isEmpty then some none
  else
    match text.dropWhile isSpace with
    | ['Z'] => some (some 0)
    | sign :: rest => do
      let (hours, rest) ← figure? 1 2 rest
      let (minutes, rest) ←
        if rest.isEmpty then some (0, [])
        else do
          let rest ← after? ':' rest
          figure? 2 2 rest
      let offset := Int.ofNat (60 * hours + minutes)
      if !rest.isEmpty then none
      else if sign == '+' then some (some offset)
      else if sign == '-' then some (some (-offset))
      else none
    | [] => none

def clock? (text : List Char) : Option Clock := do
  let rest ←
    match text with
    | 'T' :: rest | 't' :: rest => some rest
    | first :: rest => if isSpace first then some (rest.dropWhile isSpace) else none
    | [] => none
  let (hour, rest) ← figure? 1 2 rest
  let (minute, rest) ← figure? 2 2 (← after? ':' rest)
  let (second, rest) ← figure? 2 2 (← after? ':' rest)
  let digits := if rest.head? == some '.' then rest.tail.takeWhile isDigit else []
  let rest := if rest.head? == some '.' then rest.tail.drop digits.length else rest
  return ⟨hour, minute, second, micros digits, ← offset? rest⟩

/-- The moment that a text writes, whether there is such a moment or not. The parts of a date that
stands alone have all their digits. -/
def ofText? (text : List Char) : Option Moment := do
  let (year, rest) ← figure? 4 4 text
  let (month, rest) ← figure? 1 2 (← after? '-' rest)
  let (day, rest) ← figure? 1 2 (← after? '-' rest)
  if rest.isEmpty then
    if text.length == 10 then some ⟨year, month, day, none⟩ else none
  else return ⟨year, month, day, ← clock? rest⟩

def offsetText : Option Int → String
  | none => ""
  | some offset =>
    if offset == 0 then ", tzinfo=datetime.timezone.utc"
    else
      let days := if offset < 0 then "days=-1, " else ""
      let seconds := if offset < 0 then 86400 + 60 * offset else 60 * offset
      ", tzinfo=datetime.timezone(datetime.timedelta(" ++ days ++ "seconds=" ++
        Text.decimal seconds ++ "))"

/-- How a moment appears in messages. Seconds appear unless they are zero, also in front of
millionths. -/
def display (moment : Moment) : String :=
  let numbers (values : List Nat) : String := String.intercalate ", " (values.map Nat.repr)
  let date := [moment.year, moment.month, moment.day]
  match moment.clock with
  | none => "datetime.date(" ++ numbers date ++ ")"
  | some clock =>
    let finer :=
      if clock.micro != 0 then [clock.second, clock.micro]
      else if clock.second != 0 then [clock.second]
      else []
    "datetime.datetime(" ++ numbers (date ++ [clock.hour, clock.minute] ++ finer) ++
      offsetText clock.offset ++ ")"

end Moment

end RomanScript.Document
