import RomanScript.Text.Decimal

/-!
Fractions in decimal notation. Of all decimals that read back as the same binary number, one with
the fewest digits is written, and of those the nearest. Very large and very small numbers have an
exponent.
-/

namespace RomanScript.Text

/-- A positive binary number, `mantissa` times a power of two; the number below it may be only half
as far away as the one above. -/
structure Binary where
  mantissa : Nat
  exponent : Int
  narrowBelow : Bool

def Binary.ofBits (bits : UInt64) : Binary :=
  let exponent := ((bits >>> 52) &&& 0x7ff).toNat
  let fraction := (bits &&& 0xfffffffffffff).toNat
  if exponent == 0 then ⟨fraction, -1074, false⟩
  else ⟨0x10000000000000 + fraction, Int.ofNat exponent - 1075, fraction == 0 && 1 < exponent⟩

/-- The number itself, if it is whole. -/
def Binary.whole? (binary : Binary) : Option Nat :=
  let divisor := Nat.pow 2 (-binary.exponent).toNat
  let multiple := binary.mantissa * Nat.pow 2 binary.exponent.toNat
  if multiple % divisor == 0 then some (multiple / divisor) else none

/-- The whole number that a number with a fraction is equal to, if there is one. -/
def whole? (value : Float) : Option Int :=
  if value.isNaN || value.isInf then none
  else
    (Binary.ofBits (value.toBits &&& 0x7fffffffffffffff)).whole?.map fun magnitude =>
      if value.toBits >>> 63 == 1 then -Int.ofNat magnitude else magnitude

structure Scaled where
  digits : Nat
  exponent : Int

def compareScaled (tens : Nat) (ten : Int) (twos : Nat) (two : Int) : Ordering :=
  compare (tens * Nat.pow 10 ten.toNat * Nat.pow 2 (-two).toNat)
    (twos * Nat.pow 2 two.toNat * Nat.pow 10 (-ten).toNat)

/-- Whether a decimal lies among the numbers that are rounded to `binary`: nearest, and of two
equally near the one with an even mantissa. -/
def Binary.readsBack (binary : Binary) (scaled : Scaled) : Bool :=
  let low := if binary.narrowBelow then 4 * binary.mantissa - 1 else 4 * binary.mantissa - 2
  let high := 4 * binary.mantissa + 2
  let closed := binary.mantissa % 2 == 0
  let atLow := compareScaled scaled.digits scaled.exponent low (binary.exponent - 2)
  let atHigh := compareScaled scaled.digits scaled.exponent high (binary.exponent - 2)
  (atLow == .gt || (closed && atLow == .eq)) && (atHigh == .lt || (closed && atHigh == .eq))

/-- The least power of ten above the number, tried upwards from `scale` in at most `steps`
steps. -/
def Binary.scaleFrom (binary : Binary) : Nat → Int → Int
  | 0, scale => scale
  | steps + 1, scale =>
    if compareScaled 1 scale binary.mantissa binary.exponent == .gt then scale
    else scaleFrom binary steps (scale + 1)

/-- The decimals with a given exponent next to the number, below and above. -/
def Binary.neighbours (binary : Binary) (exponent : Int) : Scaled × Scaled :=
  let above := binary.mantissa * Nat.pow 2 binary.exponent.toNat * Nat.pow 10 (-exponent).toNat
  let below := Nat.pow 2 (-binary.exponent).toNat * Nat.pow 10 exponent.toNat
  (⟨above / below, exponent⟩, ⟨above / below + 1, exponent⟩)

/-- The nearer of two decimals one unit apart, the number lying between them; of two equally near
ones the even one. -/
def Binary.nearer (binary : Binary) (lower upper : Scaled) : Scaled :=
  match compareScaled (lower.digits + upper.digits) lower.exponent
      (2 * binary.mantissa) binary.exponent with
  | .gt => lower
  | .lt => upper
  | .eq => if lower.digits % 2 == 0 then lower else upper

/-- The shortest decimal that reads back, with `count` digits or up to `steps` more. -/
def Binary.shortestFrom (binary : Binary) (scale : Int) : Nat → Nat → Scaled
  | 0, _ => (binary.neighbours (scale - 17)).1
  | steps + 1, count =>
    let (lower, upper) := binary.neighbours (scale - count)
    match binary.readsBack lower, binary.readsBack upper with
    | true, true => binary.nearer lower upper
    | true, false => lower
    | false, true => upper
    | false, false => shortestFrom binary scale steps (count + 1)

/-- The shortest decimal that reads back as a positive number. -/
def Binary.shortest (binary : Binary) : Scaled :=
  binary.shortestFrom (binary.scaleFrom 700 (-330)) 17 1

def stripZeros (digits : List Char) : List Char × Nat :=
  let kept := (digits.reverse.dropWhile (· == '0')).reverse
  (kept, digits.length - kept.length)

/-- An exponent with a sign and at least two digits. -/
def exponentMark (exponent : Int) : List Char :=
  let digits := exponent.natAbs.repr.toList
  ['e', if exponent < 0 then '-' else '+'] ++ List.replicate (2 - digits.length) '0' ++ digits

/-- Digits with a point behind the first `whole` of them; a leading digit far from the point is
shown by an exponent. -/
def placePoint (digits : List Char) (whole : Int) : List Char :=
  if -4 < whole && whole ≤ 16 then
    if whole ≤ 0 then ['0', '.'] ++ List.replicate (-whole).toNat '0' ++ digits
    else
      let filled := digits ++ List.replicate (whole.toNat - digits.length) '0'
      let fraction := filled.drop whole.toNat
      filled.take whole.toNat ++ ['.'] ++ (if fraction.isEmpty then ['0'] else fraction)
  else
    digits.take 1 ++ (if digits.length ≤ 1 then [] else '.' :: digits.drop 1) ++
      exponentMark (whole - 1)

def shortestDecimal (value : Float) : String :=
  if value.isNaN then "nan"
  else
    let sign := if value.toBits >>> 63 == 1 then "-" else ""
    if value.isInf then sign ++ "inf"
    else
      let binary := Binary.ofBits (value.toBits &&& 0x7fffffffffffffff)
      if binary.mantissa == 0 then sign ++ "0.0"
      else
        let scaled := binary.shortest
        let written := scaled.digits.repr.toList
        sign ++ String.ofList
          (placePoint (stripZeros written).1 (Int.ofNat written.length + scaled.exponent))

end RomanScript.Text
