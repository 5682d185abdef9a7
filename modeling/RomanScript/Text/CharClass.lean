/-!
Sets of characters given by a table of stretches of code points. A character belongs to the set
when some stretch of its table covers it.
-/

namespace RomanScript.Text

/-- Every `step`-th code point from `first` on, none of them beyond `last`. -/
structure Stretch where
  first : Nat
  last : Nat
  step : Nat

def Stretch.covers (stretch : Stretch) (code : Nat) : Bool :=
  stretch.first ≤ code && code ≤ stretch.last && (code - stretch.first) % stretch.step == 0

/-- A set of characters, as the list of its stretches. -/
abbrev CharClass := List Stretch

def CharClass.contains (table : CharClass) (char : Char) : Bool :=
  table.any (·.covers char.toNat)

end RomanScript.Text
