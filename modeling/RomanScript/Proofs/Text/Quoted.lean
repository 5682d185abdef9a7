import Mathlib.Algebra.Group.Nat.Defs
import Mathlib.Tactic.FinCases
import Mathlib.Tactic.SplitIfs
import RomanScript.Text.Quoted

/-!
# Quoted texts

A quoted text tells the text, and it is always one line: a line break in the text is written with
a backslash. Every character is read back from the front of what is written, so no two texts are
quoted alike.
-/

namespace RomanScript.Text

def hexValue (digit : Char) : Nat :=
  if digit.isDigit then digit.toNat - 48 else digit.toNat - 87

def hexNumber (digits : List Char) : Nat :=
  digits.foldl (fun value digit => value * 16 + hexValue digit) 0

private theorem hexValue_digitChar : ∀ value < 16, hexValue (Nat.digitChar value) = value := by
  decide

@[simp]
theorem length_hexDigits (width value : Nat) : (hexDigits width value).length = width := by
  induction width generalizing value with
  | zero => rfl
  | succ width inductionHypothesis => simp [hexDigits, inductionHypothesis]

/-- As many digits as the number needs give it back. -/
theorem hexNumber_hexDigits {width value : Nat} (enough : value < 16 ^ width) :
    hexNumber (hexDigits width value) = value := by
  induction width generalizing value with
  | zero =>
      have isZero : value = 0 := by simpa using enough
      rw [isZero]
      rfl
  | succ width inductionHypothesis =>
      have higher := inductionHypothesis (Nat.div_lt_of_lt_mul (by rwa [Nat.pow_succ'] at enough))
      unfold hexNumber at higher ⊢
      rw [hexDigits, List.foldl_append, higher, List.foldl_cons, List.foldl_nil,
        hexValue_digitChar _ (Nat.mod_lt _ (by decide))]
      omega

private theorem newline_not_mem_hexDigits (width value : Nat) : '\n' ∉ hexDigits width value := by
  induction width generalizing value with
  | zero => exact List.not_mem_nil
  | succ width inductionHypothesis =>
      have noDigit : ∀ digit < 16, '\n' ≠ Nat.digitChar digit := by decide
      have last := noDigit (value % 16) (Nat.mod_lt value (by decide))
      simp [hexDigits, inductionHypothesis, last]

def unquoteChar : List Char → Option (Char × List Char)
  | '\\' :: 'n' :: rest => some ('\n', rest)
  | '\\' :: 'r' :: rest => some ('\r', rest)
  | '\\' :: 't' :: rest => some ('\t', rest)
  | '\\' :: 'x' :: rest => some (Char.ofNat (hexNumber (rest.take 2)), rest.drop 2)
  | '\\' :: 'u' :: rest => some (Char.ofNat (hexNumber (rest.take 4)), rest.drop 4)
  | '\\' :: 'U' :: rest => some (Char.ofNat (hexNumber (rest.take 8)), rest.drop 8)
  | '\\' :: char :: rest => some (char, rest)
  | char :: rest => some (char, rest)
  | [] => none

private theorem ofNat_take_hexDigits
    {char : Char} {width : Nat} (enough : char.toNat < 16 ^ width) (rest : List Char) :
    Char.ofNat (hexNumber ((hexDigits width char.toNat ++ rest).take width)) = char ∧
      (hexDigits width char.toNat ++ rest).drop width = rest := by
  constructor
  · have front : (hexDigits width char.toNat ++ rest).take width = hexDigits width char.toNat := by
      simp
    rw [front, hexNumber_hexDigits enough, Char.ofNat_toNat]
  · simp

private theorem unquoteChar_escapeCode (char : Char) (rest : List Char) :
    unquoteChar (escapeCode char.toNat ++ rest) = some (char, rest) := by
  have valid : char.toNat < 0x110000 := by
    have isValid : char.toNat.isValidChar := char.valid
    unfold Nat.isValidChar at isValid
    omega
  unfold escapeCode
  split_ifs with short middle
  · obtain ⟨isChar, behind⟩ := @ofNat_take_hexDigits char 2 (by omega) rest
    rw [List.cons_append, List.cons_append, unquoteChar, isChar, behind]
  · obtain ⟨isChar, behind⟩ := @ofNat_take_hexDigits char 4 (by omega) rest
    rw [List.cons_append, List.cons_append, unquoteChar, isChar, behind]
  · obtain ⟨isChar, behind⟩ := @ofNat_take_hexDigits char 8 (by omega) rest
    rw [List.cons_append, List.cons_append, unquoteChar, isChar, behind]

/-- A character that is written behind a backslash. -/
theorem mem_escaped
    {mark char : Char} (isMark : mark ∈ ['\x27', '\x22']) (special : char = '\\' ∨ char = mark) :
    char ∈ ['\\', '\x27', '\x22'] := by
  rcases special with rfl | rfl
  · exact .head _
  · exact .tail _ isMark

/-- A character is read back from what is written for it, whatever follows. -/
theorem unquoteChar_quoteChar
    {mark : Char} (isMark : mark ∈ ['\x27', '\x22']) (char : Char) (rest : List Char) :
    unquoteChar (quoteChar mark char ++ rest) = some (char, rest) := by
  unfold quoteChar
  split_ifs with special newline carriage tab printable
  · have escaped := mem_escaped isMark special
    fin_cases escaped <;> rfl
  · rw [newline]
    rfl
  · rw [carriage]
    rfl
  · rw [tab]
    rfl
  · have noBackslash : char ≠ '\\' := fun same => special (.inl same)
    simp [unquoteChar, noBackslash]
  · exact unquoteChar_escapeCode char rest

private theorem newline_not_mem_quoteChar
    {mark : Char} (isMark : mark ∈ ['\x27', '\x22']) (char : Char) :
    '\n' ∉ quoteChar mark char := by
  unfold quoteChar
  split_ifs with special newline carriage tab printable
  · have escaped := mem_escaped isMark special
    fin_cases escaped <;> decide
  · decide
  · decide
  · decide
  · simpa using Ne.symm newline
  · unfold escapeCode
    split_ifs <;> simp [newline_not_mem_hexDigits]

private theorem quoteMark_mem (chars : List Char) : quoteMark chars ∈ ['\x27', '\x22'] := by
  unfold quoteMark
  split <;> decide

private theorem toList_quoted (text : String) :
    (quoted text).toList = quoteMark text.toList ::
      (text.toList.flatMap (quoteChar (quoteMark text.toList)) ++ [quoteMark text.toList]) := by
  simp [quoted]

/-- Characters are written so that they can be told apart. -/
theorem flatMap_quoteChar_inj
    {mark : Char} (isMark : mark ∈ ['\x27', '\x22']) {chars others : List Char}
    (same : chars.flatMap (quoteChar mark) = others.flatMap (quoteChar mark)) : chars = others := by
  induction chars generalizing others with
  | nil =>
      cases others with
      | nil => rfl
      | cons other rest =>
          have read := unquoteChar_quoteChar isMark other (rest.flatMap (quoteChar mark))
          rw [← List.flatMap_cons, ← same] at read
          cases read
  | cons char chars inductionHypothesis =>
      have read := unquoteChar_quoteChar isMark char (chars.flatMap (quoteChar mark))
      rw [← List.flatMap_cons, same] at read
      cases others with
      | nil => cases read
      | cons other rest =>
          rw [List.flatMap_cons, unquoteChar_quoteChar isMark] at read
          obtain ⟨isFirst, isRest⟩ := Prod.mk.inj (Option.some.inj read)
          rw [isFirst, inductionHypothesis isRest.symm]

/-- No two texts are quoted alike. -/
theorem quoted_injective : Function.Injective quoted := by
  intro text other same
  have chars := congrArg String.toList same
  rw [toList_quoted, toList_quoted, List.cons.injEq] at chars
  obtain ⟨sameMark, behind⟩ := chars
  rw [sameMark] at behind
  have inner := List.append_cancel_right behind
  exact String.toList_inj.mp (flatMap_quoteChar_inj (quoteMark_mem _) inner)

/-- A quoted text is one line. -/
theorem newline_not_mem_quoted (text : String) : '\n' ∉ (quoted text).toList := by
  have isMark := quoteMark_mem text.toList
  have noMark : '\n' ≠ quoteMark text.toList := by
    intro same
    rw [← same] at isMark
    revert isMark
    decide
  simp [toList_quoted, noMark, newline_not_mem_quoteChar isMark]

end RomanScript.Text
