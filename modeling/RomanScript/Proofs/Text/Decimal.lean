import RomanScript.Text.Decimal

/-!
# Whole numbers in decimal notation

No two whole numbers are written alike, and nothing but digits and a minus sign is written.
-/

namespace RomanScript.Text

private theorem toList_decimal_natCast (value : Nat) :
    (decimal value).toList = Nat.toDigits 10 value :=
  Nat.toList_repr

private theorem toList_decimal_negSucc (below : Nat) :
    (decimal (.negSucc below)).toList = '-' :: Nat.toDigits 10 (below + 1) := by
  simp [decimal]

private theorem toDigits_injective {value other : Nat}
    (same : Nat.toDigits 10 value = Nat.toDigits 10 other) : value = other := by
  have read := congrArg (Nat.ofDigitChars 10 · 0) same
  simpa using read

/-- A number is written with digits and, if it is negative, a minus sign. -/
theorem isDigit_of_mem_decimal
    {value : Int} {char : Char} (member : char ∈ (decimal value).toList) :
    char.isDigit = true ∨ char = '-' := by
  cases value with
  | ofNat magnitude =>
      rw [Int.ofNat_eq_natCast, toList_decimal_natCast] at member
      exact .inl (Nat.isDigit_of_mem_toDigits (by decide) (by decide) member)
  | negSucc below =>
      rw [toList_decimal_negSucc] at member
      rcases List.mem_cons.mp member with minus | digit
      · exact .inr minus
      · exact .inl (Nat.isDigit_of_mem_toDigits (by decide) (by decide) digit)

theorem not_mem_decimal
    {char : Char} (noDigit : char.isDigit = false) (noMinus : char ≠ '-') (value : Int) :
    char ∉ (decimal value).toList := by
  intro member
  rcases isDigit_of_mem_decimal member with digit | minus
  · rw [noDigit] at digit
    cases digit
  · exact noMinus minus

theorem decimal_injective : Function.Injective decimal := by
  intro value other same
  have chars := congrArg String.toList same
  have noMinus : ∀ magnitude : Nat, '-' ∉ Nat.toDigits 10 magnitude := by
    intro magnitude member
    have digit := Nat.isDigit_of_mem_toDigits (by decide) (by decide) member
    revert digit
    decide
  cases value with
  | ofNat magnitude =>
      cases other with
      | ofNat magnitude' =>
          rw [Int.ofNat_eq_natCast, Int.ofNat_eq_natCast, toList_decimal_natCast,
            toList_decimal_natCast] at chars
          rw [toDigits_injective chars]
      | negSucc below =>
          rw [Int.ofNat_eq_natCast, toList_decimal_natCast, toList_decimal_negSucc] at chars
          exact absurd (chars ▸ List.mem_cons_self) (noMinus magnitude)
  | negSucc below =>
      cases other with
      | ofNat magnitude =>
          rw [Int.ofNat_eq_natCast, toList_decimal_natCast, toList_decimal_negSucc] at chars
          exact absurd (chars ▸ List.mem_cons_self) (noMinus magnitude)
      | negSucc below' =>
          rw [toList_decimal_negSucc, toList_decimal_negSucc] at chars
          have magnitudes := toDigits_injective (List.cons.inj chars).2
          rw [Nat.succ.inj magnitudes]

end RomanScript.Text
