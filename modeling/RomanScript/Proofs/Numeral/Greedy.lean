import Mathlib.Tactic.IntervalCases
import RomanScript.Proofs.Numeral

/-!
# Canonical numerals

The canonical numeral of a number is written greedily: as many of the greatest sign as fit, then of
the next one, down to `I`. Besides the sign for zero, exactly the canonical numerals of the numbers
up to 3999 are read, each as the number that was written.
-/

namespace RomanScript.Numeral

/-- The signs of which numerals are made, the greatest first, each with the number it stands for. A
letter in front of a greater one makes one sign with it. -/
def signs : List (Nat × List Char) :=
  [(1000, ['M']), (900, ['C', 'M']), (500, ['D']), (400, ['C', 'D']), (100, ['C']),
    (90, ['X', 'C']), (50, ['L']), (40, ['X', 'L']), (10, ['X']),
    (9, ['I', 'X']), (5, ['V']), (4, ['I', 'V']), (1, ['I'])]

/-- As many of each sign as fit into what the signs before it leave. -/
def greedy : List (Nat × List Char) → Nat → List Char
  | [], _ => []
  | (amount, sign) :: rest, number =>
    (List.replicate (number / amount) sign).flatten ++ greedy rest (number % amount)

def canonical (number : Nat) : String :=
  String.ofList (greedy signs number)

/-- What a text stands for: the sign for zero by itself, and otherwise the number up to 3999 whose
canonical numeral it is. -/
inductive Denotes : String → Int → Prop
  | zero : Denotes "N" 0
  | positive {number : Nat} :
      1 ≤ number → number ≤ 3999 → Denotes (canonical number) number

/-- The signs of the decimal place that counts in steps of `unit`. -/
def placeSigns (unit : Nat) (one five ten : Char) : List (Nat × List Char) :=
  [(unit * 9, [one, ten]), (unit * 5, [five]), (unit * 4, [one, five]), (unit * 1, [one])]

private theorem signs_eq :
    signs = (1000, ['M']) :: (placeSigns 100 'C' 'D' 'M' ++
      (placeSigns 10 'X' 'L' 'C' ++ (placeSigns 1 'I' 'V' 'X' ++ []))) := rfl

/-- The digit of a place decides which of its signs are written, and what is less than one step is
left to the places behind. -/
theorem greedy_placeSigns
    {one five ten : Char} {unit digit rest : Nat} (low : digit ≤ 9) (less : rest < unit)
    (behind : List (Nat × List Char)) :
    greedy (placeSigns unit one five ten ++ behind) (unit * digit + rest) =
      placeLetters one five ten digit ++ greedy behind rest := by
  have quotient (left step : Nat) : (unit * left + rest) / (unit * step) = left / step := by
    rw [← Nat.div_div_eq_div_mul, Nat.mul_add_div (by omega), Nat.div_eq_of_lt less, Nat.add_zero]
  have remainder (left step : Nat) :
      (unit * left + rest) % (unit * step) = unit * (left % step) + rest := by
    rw [Nat.mod_mul, Nat.mul_add_mod, Nat.mod_eq_of_lt less, Nat.mul_add_div (by omega),
      Nat.div_eq_of_lt less, Nat.add_zero, Nat.add_comm]
  simp only [placeSigns, List.cons_append, List.nil_append, greedy, quotient, remainder,
    Nat.mod_one, Nat.mul_zero, Nat.zero_add]
  rw [← List.append_assoc, ← List.append_assoc, ← List.append_assoc]
  congr 1
  interval_cases digit <;> rfl

private theorem greedy_signs (number : Nat) :
    greedy signs number =
      letters (number / 1000) (number / 100 % 10) (number / 10 % 10) (number % 10) := by
  have hundreds : number % 1000 = 100 * (number / 100 % 10) + number % 100 := by omega
  have tens : number % 100 = 10 * (number / 10 % 10) + number % 10 := by omega
  have units : number % 10 = 1 * (number % 10) + 0 := by omega
  have thousands : (List.replicate (number / 1000) ['M']).flatten =
      List.replicate (number / 1000) 'M' := by
    rw [List.flatten_replicate_singleton]
  rw [letters, signs_eq, greedy, thousands, hundreds,
    greedy_placeSigns (by omega) (by omega), tens, greedy_placeSigns (by omega) (by omega)]
  nth_rewrite 1 [units]
  rw [greedy_placeSigns (by omega) (by omega), greedy, List.append_nil]

/-- Written greedily or place by place, a number has the same numeral. -/
theorem canonical_eq_ofNat {number : Nat} (positive : 1 ≤ number) :
    canonical number = ofNat number := by
  rw [canonical, ofNat, if_neg (by omega), greedy_signs]

/-- A text with a value is the numeral of that value. -/
theorem eq_ofNat_of_value?
    {text : String} {value : Int} (isValue : value? text = some value) :
    text = ofNat value.toNat := by
  unfold value? at isValue
  split_ifs at isValue with isZero wellFormed
  · cases isValue
    simpa [ofNat] using isZero
  · obtain ⟨thousands, lowThousands, hundreds, lowHundreds, tens, lowTens, units, lowUnits,
      split⟩ := exists_places wellFormed
    have counted := sumOfLetters_letters lowThousands lowHundreds lowTens lowUnits
    rw [split, Option.some.injEq, counted] at isValue
    have number : value.toNat = 1000 * thousands + 100 * hundreds + 10 * tens + units := by omega
    have positive : value.toNat ≠ 0 := by
      intro isZero
      -- Without thousands, hundreds, tens and units there are no letters.
      obtain ⟨rfl, rfl, rfl, rfl⟩ :
          thousands = 0 ∧ hundreds = 0 ∧ tens = 0 ∧ units = 0 := by omega
      rw [split] at wellFormed
      exact absurd wellFormed (by decide)
    have places : letters (value.toNat / 1000) (value.toNat / 100 % 10) (value.toNat / 10 % 10)
        (value.toNat % 10) = text.toList := by
      rw [split]
      congr 1 <;> omega
    rw [ofNat, if_neg positive, places, String.ofList_toList]

private theorem value?_eq_some_iff {text : String} {value : Int} :
    value? text = some value ↔ Denotes text value := by
  constructor
  · intro isValue
    obtain ⟨nonneg, low⟩ := value?_range isValue
    have written := eq_ofNat_of_value? isValue
    obtain ⟨number, rfl⟩ := Int.eq_ofNat_of_zero_le nonneg
    rw [Int.toNat_natCast] at written
    rcases Nat.eq_zero_or_pos number with rfl | positive
    · rw [written]
      exact .zero
    · rw [written, ← canonical_eq_ofNat positive]
      exact .positive positive (by omega)
  · intro denotes
    cases denotes with
    | zero => rfl
    | positive positive low =>
        rw [canonical_eq_ofNat positive]
        exact value?_ofNat low

/-- Exactly the sign for zero and the canonical numerals of the numbers from 1 to 3999 are numerals,
they are read as what they stand for, and no other text is read. So no two texts are read as one
number, and none as a number beyond 3999. -/
theorem isNumeral_iff_denotes (text : String) :
    (isNumeral text = true ↔ ∃ value, Denotes text value) ∧
      (∀ value, value? text = some value ↔ Denotes text value) ∧
      (value? text = none ↔ ¬ ∃ value, Denotes text value) ∧
      (∀ other, isNumeral text = true → value? other = value? text → other = text) ∧
      ∀ value, value? text = some value → 0 ≤ value ∧ value ≤ 3999 := by
  have denotes : isNumeral text = true ↔ ∃ value, Denotes text value := by
    rw [← isSome_value?, Option.isSome_iff_exists]
    exact exists_congr fun value => value?_eq_some_iff
  refine ⟨denotes, fun value => value?_eq_some_iff, ?_, ?_, fun value => value?_range⟩
  · rw [← denotes, ← isSome_value?, Bool.not_eq_true, Option.isSome_eq_false_iff,
      Option.isNone_iff_eq_none]
  · intro other accepted same
    rw [← isSome_value?, Option.isSome_iff_exists] at accepted
    obtain ⟨value, isValue⟩ := accepted
    rw [eq_ofNat_of_value? isValue, eq_ofNat_of_value? (same.trans isValue)]

theorem isNumeral_iff_denotes_subtractive :
    isNumeral "MCMXCIV" = true ∧ Denotes "MCMXCIV" 1994 ∧
      ∀ other, value? other = some 1994 → other = "MCMXCIV" := by
  have accepted : isNumeral "MCMXCIV" = true := by decide
  have isValue : value? "MCMXCIV" = some 1994 := by decide
  obtain ⟨_, denotes, _, unique, _⟩ := isNumeral_iff_denotes "MCMXCIV"
  refine ⟨accepted, (denotes 1994).mp isValue, fun other same => ?_⟩
  exact unique other accepted (same.trans isValue.symm)

end RomanScript.Numeral
