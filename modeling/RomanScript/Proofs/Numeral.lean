import Mathlib.Tactic.IntervalCases
import Mathlib.Tactic.SplitIfs
import RomanScript.Numeral

/-!
# Places of numerals

A well-formed numeral consists of up to three thousands and of the letters for its hundreds, its
tens and its units. Each place counts by itself, since the letters never grow from one place to the
next.
-/

namespace RomanScript.Numeral

/-- A digit written with the letters for one, five and ten of a decimal place. -/
def placeLetters (one five ten : Char) (digit : Nat) : List Char :=
  if digit = 9 then [one, ten]
  else if digit = 4 then [one, five]
  else List.replicate (digit / 5) five ++ List.replicate (digit % 5) one

private theorem exists_replicate (letter : Char) (count : Nat) (chars : List Char) :
    ∃ copies ≤ count, chars = List.replicate copies letter ++ skipUpTo letter count chars := by
  induction count generalizing chars with
  | zero => exact ⟨0, Nat.le_refl 0, by simp [skipUpTo]⟩
  | succ count inductionHypothesis =>
      cases chars with
      | nil => exact ⟨0, Nat.zero_le _, by simp [skipUpTo]⟩
      | cons char rest =>
          rw [skipUpTo]
          split
          · rename_i isLetter
            obtain ⟨copies, few, split⟩ := inductionHypothesis rest
            refine ⟨copies + 1, Nat.succ_le_succ few, ?_⟩
            rw [isLetter, List.replicate_succ, List.cons_append, ← split]
          · exact ⟨0, Nat.zero_le _, rfl⟩

private theorem exists_additive (one five ten : Char) (chars : List Char) :
    ∃ digit ≤ 9, chars =
      placeLetters one five ten digit ++ skipUpTo one 3 (skipUpTo five 1 chars) := by
  obtain ⟨fives, fewFives, splitFives⟩ := exists_replicate five 1 chars
  obtain ⟨ones, fewOnes, splitOnes⟩ := exists_replicate one 3 (skipUpTo five 1 chars)
  refine ⟨5 * fives + ones, by omega, ?_⟩
  have quotient : (5 * fives + ones) / 5 = fives := by omega
  have remainder : (5 * fives + ones) % 5 = ones := by omega
  rw [placeLetters, if_neg (by omega), if_neg (by omega), quotient, remainder, List.append_assoc,
    ← splitOnes, ← splitFives]

/-- What is skipped as a decimal place is a digit. -/
theorem exists_digit (one five ten : Char) (chars : List Char) :
    ∃ digit ≤ 9, chars = placeLetters one five ten digit ++ skipPlace one five ten chars := by
  unfold skipPlace
  split
  · rename_i first second rest
    split
    · rename_i subtractive
      obtain ⟨rfl, rfl | rfl⟩ := subtractive
      · exact ⟨9, Nat.le_refl 9, rfl⟩
      · exact ⟨4, by decide, rfl⟩
    · exact exists_additive one five ten _
  · exact exists_additive one five ten chars

def letters (thousands hundreds tens units : Nat) : List Char :=
  List.replicate thousands 'M' ++ (placeLetters 'C' 'D' 'M' hundreds ++
    (placeLetters 'X' 'L' 'C' tens ++ placeLetters 'I' 'V' 'X' units))

theorem exists_places {chars : List Char} (wellFormed : isWellFormed chars = true) :
    ∃ thousands ≤ 3, ∃ hundreds ≤ 9, ∃ tens ≤ 9, ∃ units ≤ 9,
      chars = letters thousands hundreds tens units := by
  have nothing : skipPlaces chars = [] := by
    simp only [isWellFormed, Bool.and_eq_true, List.isEmpty_iff] at wellFormed
    exact wellFormed.2
  obtain ⟨thousands, few, split⟩ := exists_replicate 'M' 3 chars
  obtain ⟨hundreds, lowHundreds, splitHundreds⟩ := exists_digit 'C' 'D' 'M' (skipUpTo 'M' 3 chars)
  obtain ⟨tens, lowTens, splitTens⟩ :=
    exists_digit 'X' 'L' 'C' (skipPlace 'C' 'D' 'M' (skipUpTo 'M' 3 chars))
  obtain ⟨units, lowUnits, splitUnits⟩ := exists_digit 'I' 'V' 'X'
    (skipPlace 'X' 'L' 'C' (skipPlace 'C' 'D' 'M' (skipUpTo 'M' 3 chars)))
  refine ⟨thousands, few, hundreds, lowHundreds, tens, lowTens, units, lowUnits, ?_⟩
  change skipPlace 'I' 'V' 'X' _ = [] at nothing
  rw [nothing, List.append_nil] at splitUnits
  rw [letters, ← splitUnits, ← splitTens, ← splitHundreds, ← split]

/-- Where no letter behind is greater than one before, what stands before counts by itself. -/
theorem sumOfLetters_append
    {front back : List Char} (bound : Int) (high : ∀ letter ∈ front, bound ≤ letterValue letter)
    (low : ∀ letter ∈ back, letterValue letter ≤ bound) :
    sumOfLetters (front ++ back) = sumOfLetters front + sumOfLetters back := by
  induction front with
  | nil => simp [sumOfLetters]
  | cons letter rest inductionHypothesis =>
      have others := inductionHypothesis fun other member => high other (.tail _ member)
      -- A letter is compared with the one behind it, which is in the back only at the seam.
      cases rest with
      | nil =>
          have single : sumOfLetters [letter] = letterValue letter := rfl
          cases back with
          | nil => simp [sumOfLetters]
          | cons next behind =>
              have descends : ¬ letterValue letter < letterValue next := by
                have above := high letter (.head _)
                have below := low next (.head _)
                omega
              rw [List.singleton_append, single, sumOfLetters, if_neg descends]
              omega
      | cons next behind =>
          rw [List.cons_append, List.cons_append, sumOfLetters, sumOfLetters, ← List.cons_append,
            others]
          split <;> omega

private theorem mem_placeLetters
    {one five ten letter : Char} {digit : Nat} (member : letter ∈ placeLetters one five ten digit) :
    letter = one ∨ letter = five ∨ letter = ten := by
  unfold placeLetters at member
  split_ifs at member <;> grind

private theorem letterValue_le (letter : Char) : letterValue letter ≤ 1000 := by
  unfold letterValue
  split <;> decide

private theorem sumOfLetters_thousands :
    ∀ thousands ≤ 3, sumOfLetters (List.replicate thousands 'M') = 1000 * thousands := by
  decide

private theorem sumOfLetters_hundreds :
    ∀ digit ≤ 9, sumOfLetters (placeLetters 'C' 'D' 'M' digit) = 100 * digit := by
  decide

private theorem sumOfLetters_tens :
    ∀ digit ≤ 9, sumOfLetters (placeLetters 'X' 'L' 'C' digit) = 10 * digit := by
  decide

private theorem sumOfLetters_units :
    ∀ digit ≤ 9, sumOfLetters (placeLetters 'I' 'V' 'X' digit) = digit := by
  decide

/-- The letters of a number count as many as it says. -/
theorem sumOfLetters_letters
    {thousands hundreds tens units : Nat} (lowThousands : thousands ≤ 3)
    (lowHundreds : hundreds ≤ 9) (lowTens : tens ≤ 9) (lowUnits : units ≤ 9) :
    sumOfLetters (letters thousands hundreds tens units) =
      1000 * thousands + 100 * hundreds + 10 * tens + units := by
  have inThousands : ∀ letter ∈ List.replicate thousands 'M', 1000 ≤ letterValue letter := by
    intro letter member
    rw [List.eq_of_mem_replicate member]
    decide
  have inHundreds : ∀ letter ∈ placeLetters 'C' 'D' 'M' hundreds, 100 ≤ letterValue letter := by
    intro letter member
    rcases mem_placeLetters member with rfl | rfl | rfl <;> decide
  have inTens : ∀ letter ∈ placeLetters 'X' 'L' 'C' tens,
      10 ≤ letterValue letter ∧ letterValue letter ≤ 100 := by
    intro letter member
    rcases mem_placeLetters member with rfl | rfl | rfl <;> decide
  have inUnits : ∀ letter ∈ placeLetters 'I' 'V' 'X' units, letterValue letter ≤ 10 := by
    intro letter member
    rcases mem_placeLetters member with rfl | rfl | rfl <;> decide
  have behindHundreds : ∀ letter ∈ placeLetters 'X' 'L' 'C' tens ++ placeLetters 'I' 'V' 'X' units,
      letterValue letter ≤ 100 := by
    intro letter member
    rcases List.mem_append.mp member with isTens | isUnits
    · exact (inTens letter isTens).2
    · exact Int.le_trans (inUnits letter isUnits) (by decide)
  rw [letters, sumOfLetters_append 1000 inThousands fun letter _ => letterValue_le letter,
    sumOfLetters_append 100 inHundreds behindHundreds,
    sumOfLetters_append 10 (fun letter member => (inTens letter member).1) inUnits,
    sumOfLetters_thousands thousands lowThousands, sumOfLetters_hundreds hundreds lowHundreds,
    sumOfLetters_tens tens lowTens, sumOfLetters_units units lowUnits]
  omega

/-- Numerals stand for the numbers up to 3999. -/
theorem value?_range {text : String} {value : Int} (isValue : value? text = some value) :
    0 ≤ value ∧ value ≤ 3999 := by
  unfold value? at isValue
  split_ifs at isValue with isZero wellFormed
  · cases isValue
    decide
  · obtain ⟨thousands, lowThousands, hundreds, lowHundreds, tens, lowTens, units, lowUnits,
      split⟩ := exists_places wellFormed
    rw [split, sumOfLetters_letters lowThousands lowHundreds lowTens lowUnits] at isValue
    cases isValue
    omega

def ofNat (number : Nat) : String :=
  if number = 0 then "N"
  else String.ofList
    (letters (number / 1000) (number / 100 % 10) (number / 10 % 10) (number % 10))

/-- Some characters begin with one of some letters, if with any. -/
def Begins (letters chars : List Char) : Prop :=
  ∀ char, chars.head? = some char → char ∈ letters

private theorem Begins.head?_ne
    {letters chars : List Char} (begins : Begins letters chars) {letter : Char}
    (other : letter ∉ letters) : chars.head? ≠ some letter :=
  fun first => other (begins letter first)

/-- A decimal place begins with the letter for one or for five, unless its digit is zero. -/
theorem begins_placeLetters
    {one five ten : Char} {digit : Nat} (low : digit ≤ 9) {more rest : List Char}
    (begins : Begins more rest) :
    Begins (one :: five :: more) (placeLetters one five ten digit ++ rest) := by
  intro char first
  interval_cases digit <;> simp [placeLetters, List.replicate_succ] at first <;>
    simp_all [Begins]

private theorem skipUpTo_of_head?
    {letter : Char} {rest : List Char} (stops : rest.head? ≠ some letter) (count : Nat) :
    skipUpTo letter count rest = rest := by
  cases count with
  | zero => cases rest <;> rfl
  | succ count =>
      cases rest with
      | nil => rfl
      | cons char rest => exact if_neg fun isLetter => stops (congrArg some isLetter)

private theorem skipUpTo_replicate
    {letter : Char} {copies count : Nat} (few : copies ≤ count) {rest : List Char}
    (stops : rest.head? ≠ some letter) :
    skipUpTo letter count (List.replicate copies letter ++ rest) = rest := by
  induction copies generalizing count with
  | zero => exact skipUpTo_of_head? stops count
  | succ copies inductionHypothesis =>
      cases count with
      | zero => exact absurd few (Nat.not_succ_le_zero copies)
      | succ count =>
          rw [List.replicate_succ, List.cons_append, skipUpTo, if_pos rfl]
          exact inductionHypothesis (Nat.le_of_succ_le_succ few)

/-- A decimal place is skipped where what follows belongs to another one. -/
theorem skipPlace_placeLetters
    {one five ten : Char} (distinct : [one, five, ten].Nodup) {digit : Nat} (low : digit ≤ 9)
    {rest : List Char} (stops : ∀ char ∈ [one, five, ten], rest.head? ≠ some char) :
    skipPlace one five ten (placeLetters one five ten digit ++ rest) = rest := by
  simp only [List.nodup_cons, List.mem_cons, List.not_mem_nil, or_false, not_or] at distinct
  obtain ⟨⟨oneFive, oneTen⟩, fiveTen, _⟩ := distinct
  simp only [List.forall_mem_cons] at stops
  obtain ⟨notOne, notFive, notTen, _⟩ := stops
  have notFive' : five ≠ one := Ne.symm oneFive
  -- Only a digit of zero leaves it to the letters behind whether this place is subtractive.
  rcases rest with _ | ⟨char, _ | ⟨next, rest⟩⟩ <;> interval_cases digit <;>
    simp_all [placeLetters, List.replicate_succ, skipPlace, skipUpTo]

/-- The letters of a number are four places. -/
theorem skipPlaces_letters
    {thousands hundreds tens units : Nat} (lowThousands : thousands ≤ 3)
    (lowHundreds : hundreds ≤ 9) (lowTens : tens ≤ 9) (lowUnits : units ≤ 9) :
    skipPlaces (letters thousands hundreds tens units) = [] := by
  have split : letters thousands hundreds tens units =
      List.replicate thousands 'M' ++ (placeLetters 'C' 'D' 'M' hundreds ++
        (placeLetters 'X' 'L' 'C' tens ++ (placeLetters 'I' 'V' 'X' units ++ []))) := by
    rw [List.append_nil, letters]
  have beginsUnits : Begins ['I', 'V'] (placeLetters 'I' 'V' 'X' units ++ []) :=
    begins_placeLetters lowUnits nofun
  have beginsTens : Begins ['X', 'L', 'I', 'V'] (placeLetters 'X' 'L' 'C' tens ++ _) :=
    begins_placeLetters lowTens beginsUnits
  have beginsHundreds :
      Begins ['C', 'D', 'X', 'L', 'I', 'V'] (placeLetters 'C' 'D' 'M' hundreds ++ _) :=
    begins_placeLetters lowHundreds beginsTens
  have notTens : ∀ char ∈ ['X', 'L', 'C'], char ∉ ['I', 'V'] := by simp
  have notHundreds : ∀ char ∈ ['C', 'D', 'M'], char ∉ ['X', 'L', 'I', 'V'] := by simp
  rw [skipPlaces, split, skipUpTo_replicate lowThousands (beginsHundreds.head?_ne (by decide)),
    skipPlace_placeLetters (by decide) lowHundreds fun char member =>
      beginsTens.head?_ne (notHundreds char member),
    skipPlace_placeLetters (by decide) lowTens fun char member =>
      beginsUnits.head?_ne (notTens char member),
    skipPlace_placeLetters (by decide) lowUnits (by simp)]

/-- A number is the value of its numeral. -/
theorem value?_ofNat
    {number : Nat} (low : number ≤ 3999) : value? (ofNat number) = some (number : Int) := by
  unfold ofNat
  split
  · rename_i isZero
    rw [isZero]
    rfl
  · rename_i notZero
    have lowThousands : number / 1000 ≤ 3 := by omega
    have lowHundreds : number / 100 % 10 ≤ 9 := by omega
    have lowTens : number / 10 % 10 ≤ 9 := by omega
    have lowUnits : number % 10 ≤ 9 := by omega
    have value := sumOfLetters_letters lowThousands lowHundreds lowTens lowUnits
    have skipped := skipPlaces_letters lowThousands lowHundreds lowTens lowUnits
    generalize letters (number / 1000) (number / 100 % 10) (number / 10 % 10) (number % 10) = chars
      at value skipped ⊢
    have isValue : sumOfLetters chars = number := by omega
    have nonempty : chars ≠ [] := by
      rintro rfl
      simp [sumOfLetters] at isValue
      omega
    have notZeroSign : String.ofList chars ≠ "N" := by
      intro isSign
      have isChars := congrArg String.toList isSign
      rw [String.toList_ofList] at isChars
      rw [isChars] at isValue
      have isZero : sumOfLetters ("N".toList) = 0 := by decide
      omega
    have wellFormed : isWellFormed chars = true := by
      simp [isWellFormed, nonempty, skipped]
    rw [value?, if_neg (by simpa using notZeroSign), String.toList_ofList, if_pos wellFormed,
      isValue]

theorem value?_ofNat_toNat
    {value : Int} (nonneg : 0 ≤ value) (low : value ≤ 3999) :
    value? (ofNat value.toNat) = some value := by
  rw [value?_ofNat (by omega), Int.toNat_of_nonneg nonneg]

private theorem isNumeralLetter_of_mem_letters
    {thousands hundreds tens units : Nat} {letter : Char}
    (member : letter ∈ letters thousands hundreds tens units) : isNumeralLetter letter = true := by
  simp only [letters, List.mem_append, List.mem_replicate] at member
  rcases member with ⟨_, rfl⟩ | inHundreds | inTens | inUnits
  · decide
  · rcases mem_placeLetters inHundreds with rfl | rfl | rfl <;> decide
  · rcases mem_placeLetters inTens with rfl | rfl | rfl <;> decide
  · rcases mem_placeLetters inUnits with rfl | rfl | rfl <;> decide

/-- Numerals are written with numeral letters. -/
theorem isNumeralLetter_of_mem_ofNat
    {number : Nat} {letter : Char} (member : letter ∈ (ofNat number).toList) :
    isNumeralLetter letter = true := by
  unfold ofNat at member
  split at member
  · rw [List.mem_singleton.mp (by simpa using member : letter ∈ ['N'])]
    decide
  · rw [String.toList_ofList] at member
    exact isNumeralLetter_of_mem_letters member

end RomanScript.Numeral
