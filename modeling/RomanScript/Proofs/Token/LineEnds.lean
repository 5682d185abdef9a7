import RomanScript.Proofs.Keyword.Usable
import RomanScript.Proofs.Token.Lines
import RomanScript.Proofs.Token.Stop
import RomanScript.Text.Newline

/-!
# Texts with other line ends

A text and the same text with every line end as one line feed are scanned to the same words, or the
same problem is found. What is found in the one text behind some characters is found in the other
behind the same characters with their line ends changed. These are the same places unless a carriage
return stands alone before them: it ends a line of the other text only.
-/

namespace RomanScript

namespace Text

/-- How many carriage returns stand before no line feed. -/
def loneReturns : List Char → Nat
  | '\r' :: '\n' :: rest => loneReturns rest
  | '\r' :: rest => loneReturns rest + 1
  | _ :: rest => loneReturns rest
  | [] => 0

/-- Characters are taken up from line end to line end and one by one in between. -/
@[elab_as_elim]
theorem lineEnds_induction
    {motive : List Char → Prop} (nil : motive [])
    (both : ∀ rest, motive rest → motive ('\r' :: '\n' :: rest))
    (alone : ∀ rest, rest.head? ≠ some '\n' → motive rest → motive ('\r' :: rest))
    (other : ∀ first rest, first ≠ '\r' → motive rest → motive (first :: rest))
    (chars : List Char) : motive chars := by
  induction chars using unifyLineEnds.induct with
  | case1 rest inductionHypothesis => exact both rest inductionHypothesis
  | case2 rest isAlone inductionHypothesis =>
      apply alone rest _ inductionHypothesis
      intro begins
      obtain ⟨_, isRest⟩ := List.head?_eq_some_iff.mp begins
      exact isAlone _ isRest
  | case3 first rest _ isOther inductionHypothesis => exact other first rest isOther inductionHypothesis
  | case4 => exact nil

variable {first : Char} {rest left right : List Char}

private theorem unifyLineEnds_alone
    (alone : rest.head? ≠ some '\n') : unifyLineEnds ('\r' :: rest) = '\n' :: unifyLineEnds rest := by
  cases rest with
  | nil => rfl
  | cons char rest =>
      rw [unifyLineEnds]
      rintro _ ⟨⟩
      exact alone rfl

private theorem unifyLineEnds_other
    (isOther : first ≠ '\r') : unifyLineEnds (first :: rest) = first :: unifyLineEnds rest := by
  rw [unifyLineEnds]
  · rintro _ rfl
    exact absurd rfl isOther
  · exact isOther

private theorem loneReturns_alone
    (alone : rest.head? ≠ some '\n') : loneReturns ('\r' :: rest) = loneReturns rest + 1 := by
  cases rest with
  | nil => rfl
  | cons char rest =>
      rw [loneReturns]
      rintro _ ⟨⟩
      exact alone rfl

private theorem loneReturns_other (isOther : first ≠ '\r') : loneReturns (first :: rest) = loneReturns rest := by
  rw [loneReturns]
  · rintro _ rfl
    exact absurd rfl isOther
  · exact isOther

/-- Characters without a carriage return stay as they are. -/
theorem unifyLineEnds_append_of_not_mem
    (isNone : '\r' ∉ left) : unifyLineEnds (left ++ right) = left ++ unifyLineEnds right := by
  induction left with
  | nil => rfl
  | cons first rest inductionHypothesis =>
      rw [List.mem_cons, not_or] at isNone
      rw [List.cons_append, unifyLineEnds_other (Ne.symm isNone.1), inductionHypothesis isNone.2,
        List.cons_append]

/-- A cut that goes through no line end. -/
def Apart (left right : List Char) : Prop :=
  left.getLast? = some '\r' → right.head? ≠ some '\n'

/-- Line ends are changed on both sides of a cut that goes through none. -/
theorem unifyLineEnds_append
    (apart : Apart left right) :
    unifyLineEnds (left ++ right) = unifyLineEnds left ++ unifyLineEnds right := by
  induction left using lineEnds_induction with
  | nil => rfl
  | both rest inductionHypothesis =>
      have others := inductionHypothesis fun ends => apart (by simp [List.getLast?_cons, ends])
      rw [List.cons_append, List.cons_append, unifyLineEnds, unifyLineEnds, others, List.cons_append]
  | alone rest isAlone inductionHypothesis =>
      have others := inductionHypothesis fun ends => apart (by simp [List.getLast?_cons, ends])
      have isAlone' : (rest ++ right).head? ≠ some '\n' := by
        cases rest with
        | nil => exact apart rfl
        | cons => exact isAlone
      rw [List.cons_append, unifyLineEnds_alone isAlone', unifyLineEnds_alone isAlone, others,
        List.cons_append]
  | other first rest isOther inductionHypothesis =>
      have others := inductionHypothesis fun ends => apart (by simp [List.getLast?_cons, ends])
      rw [List.cons_append, unifyLineEnds_other isOther, unifyLineEnds_other isOther, others,
        List.cons_append]

/-- A cut through a line end has a line feed behind it that ends no line by itself. -/
theorem exists_of_not_apart
    (within : ¬ Apart left right) :
    ∃ behind, right = '\n' :: behind ∧
      unifyLineEnds (left ++ right) = unifyLineEnds left ++ unifyLineEnds behind := by
  rw [Apart, Classical.not_imp, not_not] at within
  obtain ⟨front, rfl⟩ := List.getLast?_eq_some_iff.mp within.1
  obtain ⟨behind, rfl⟩ := List.head?_eq_some_iff.mp within.2
  have isLeft : unifyLineEnds (front ++ ['\r']) = unifyLineEnds front ++ ['\n'] :=
    unifyLineEnds_append fun _ => by simp
  have isWhole : unifyLineEnds (front ++ '\r' :: '\n' :: behind) =
      unifyLineEnds front ++ '\n' :: unifyLineEnds behind :=
    unifyLineEnds_append fun _ => by simp
  refine ⟨behind, rfl, ?_⟩
  rw [isLeft, List.append_assoc, List.append_assoc]
  exact isWhole

/-- Line ends in front are changed alike whatever follows. -/
theorem unifyLineEnds_prefix (left right : List Char) :
    unifyLineEnds left <+: unifyLineEnds (left ++ right) := by
  by_cases apart : Apart left right
  · rw [unifyLineEnds_append apart]
    exact List.prefix_append _ _
  · obtain ⟨behind, _, isUnified⟩ := exists_of_not_apart apart
    rw [isUnified]
    exact List.prefix_append _ _

/-- A character is changed by itself, or it ends a line with the carriage return before it. -/
theorem unifyLineEnds_concat (left : List Char) (char : Char) :
    unifyLineEnds (left ++ [char]) = unifyLineEnds left ∨
      unifyLineEnds (left ++ [char]) = unifyLineEnds left ++ [if char = '\r' then '\n' else char] := by
  by_cases apart : Apart left [char]
  · right
    rw [unifyLineEnds_append apart]
    by_cases isReturn : char = '\r'
    · rw [if_pos isReturn, isReturn]
      rfl
    · rw [if_neg isReturn, unifyLineEnds_other isReturn, unifyLineEnds]
  · left
    obtain ⟨behind, isEnd, isUnified⟩ := exists_of_not_apart apart
    rw [isUnified, (List.cons.inj isEnd).2.symm, unifyLineEnds, List.append_nil]

private theorem count_unifyLineEnds (chars : List Char) :
    (unifyLineEnds chars).count '\n' = chars.count '\n' + loneReturns chars := by
  induction chars using lineEnds_induction with
  | nil => rfl
  | both rest inductionHypothesis =>
      rw [unifyLineEnds, loneReturns, List.count_cons_self, inductionHypothesis,
        List.count_cons_of_ne (by decide), List.count_cons_self]
      omega
  | alone rest isAlone inductionHypothesis =>
      rw [unifyLineEnds_alone isAlone, loneReturns_alone isAlone, List.count_cons_self,
        inductionHypothesis, List.count_cons_of_ne (by decide)]
      omega
  | other first rest isOther inductionHypothesis =>
      rw [unifyLineEnds_other isOther, loneReturns_other isOther, List.count_cons, List.count_cons,
        inductionHypothesis]
      omega

end Text

open Text

namespace Token

/-- Behind the same characters a line begins in the one text for each line that begins in the other
and for each carriage return that stands alone. -/
theorem Place.line_after_unifyLineEnds (chars : List Char) :
    (after (unifyLineEnds chars)).line = (after chars).line + loneReturns chars := by
  simp only [after, count_unifyLineEnds, Nat.add_assoc]

private theorem Place.foldl_behind_unifyLineEnds
    {chars : List Char} (none : loneReturns chars = 0) (place : Place) :
    (unifyLineEnds chars).foldl behind place = chars.foldl behind place := by
  induction chars using lineEnds_induction generalizing place with
  | nil => rfl
  | both rest inductionHypothesis =>
      have sameLine : (place.behind '\r').behind '\n' = place.behind '\n' := rfl
      rw [unifyLineEnds, List.foldl_cons, List.foldl_cons, List.foldl_cons, sameLine,
        inductionHypothesis none]
  | alone rest isAlone inductionHypothesis =>
      rw [loneReturns_alone isAlone] at none
      cases none
  | other first rest isOther inductionHypothesis =>
      rw [loneReturns_other isOther] at none
      rw [unifyLineEnds_other isOther, List.foldl_cons, List.foldl_cons, inductionHypothesis none]

/-- Where a text comes to after some characters does not depend on its line ends, unless a carriage
return stands alone. -/
theorem Place.after_unifyLineEnds_eq_iff (chars : List Char) :
    after (unifyLineEnds chars) = after chars ↔ loneReturns chars = 0 := by
  constructor
  · intro same
    have lines := line_after_unifyLineEnds chars
    rw [same] at lines
    omega
  · intro none
    have folded := foldl_behind_unifyLineEnds none (after [])
    rwa [foldl_behind, foldl_behind] at folded

private theorem delimits_unifyLineEnds_return (rest : List Char) :
    Delimits (unifyLineEnds ('\r' :: rest)) := by
  by_cases alone : rest.head? = some '\n'
  · obtain ⟨behind, rfl⟩ := List.head?_eq_some_iff.mp alone
    exact delimits_newline _
  · rw [unifyLineEnds_alone alone]
    exact delimits_newline _

/-- What stands at a place does not depend on the line ends behind it. -/
theorem pieceAt_unifyLineEnds
    {table : Keyword.Table} (spelled : table.Spelled) (first : Char) (rest : List Char) :
    pieceAt table first (unifyLineEnds rest) = pieceAt table first rest := by
  by_cases member : '\r' ∈ rest
  · obtain ⟨front, behind, rfl, isNone⟩ := List.eq_append_cons_of_mem member
    rw [unifyLineEnds_append_of_not_mem isNone,
      pieceAt_append spelled _ _ (delimits_unifyLineEnds_return behind),
      pieceAt_append spelled _ _ (rfl : Delimits ('\r' :: behind))]
  · have same : unifyLineEnds (rest ++ []) = rest ++ unifyLineEnds [] :=
      unifyLineEnds_append_of_not_mem member
    rw [unifyLineEnds, List.append_nil] at same
    rw [same]

/-- Places behind the same characters, in a text and in the same text with unified line ends. -/
inductive Place.Unified (text : List Char) : Place → Place → Prop
  | intro {before : List Char} :
      before <+: text → Unified text (after before) (after (unifyLineEnds before))

inductive Unified (text : List Char) : Token → Token → Prop
  | intro {place place' : Place} (symbol : Symbol) (word : String) :
      place.Unified text place' →
      Unified text (atPlace place symbol word) (atPlace place' symbol word)

end Token

inductive Diagnostic.Unified (text : List Char) (path path' : Option String) :
    Diagnostic → Diagnostic → Prop
  | intro {place place' : Token.Place} (problem : Problem) :
      place.Unified text place' →
      Unified text path path' ⟨problem, place.line, place.column, path⟩
        ⟨problem, place'.line, place'.column, path'⟩

namespace Token

variable {table : Keyword.Table} {path path' : Option String}

inductive Unifies (text : List Char) (path path' : Option String) :
    Except Diagnostic (List Token) → Except Diagnostic (List Token) → Prop
  | tokens {tokens tokens' : List Token} :
      List.Forall₂ (Unified text) tokens tokens' → Unifies text path path' (.ok tokens) (.ok tokens')
  | diagnostic {diagnostic diagnostic' : Diagnostic} :
      diagnostic.Unified text path path' diagnostic' →
      Unifies text path path' (.error diagnostic) (.error diagnostic')

/-- A word of a text is a word of the text with unified line ends. -/
theorem word_unifyLineEnds
    {table : Keyword.Table} (spelled : table.Spelled) {before tail behind chars' : List Char}
    {first : Char} {symbol : Symbol}
    (taken : pieceAt table first (tail ++ behind) = .word symbol (first :: tail))
    (isUnified : unifyLineEnds (before ++ (first :: tail ++ behind)) =
      unifyLineEnds before ++ chars') :
    unifyLineEnds (before ++ first :: tail) = unifyLineEnds before ++ first :: tail ∧
      chars' = first :: tail ++ unifyLineEnds behind ∧
        pieceAt table first (tail ++ unifyLineEnds behind) = .word symbol (first :: tail) := by
  have noBlank : ∀ char ∈ first :: tail, isBlank char = false :=
    Stands.not_isBlank spelled (taken ▸ stands_pieceAt table first (tail ++ behind))
  have noReturn : '\r' ∉ first :: tail := fun member => absurd (noBlank _ member) (by decide)
  have noLineFeed : first ≠ '\n' := by
    rintro rfl
    exact absurd (noBlank '\n' List.mem_cons_self) (by decide)
  have unified (behind : List Char) : unifyLineEnds (before ++ (first :: tail ++ behind)) =
      unifyLineEnds before ++ (first :: tail ++ unifyLineEnds behind) := by
    rw [unifyLineEnds_append fun _ => by simpa using noLineFeed,
      unifyLineEnds_append_of_not_mem noReturn]
  have alone := unified []
  rw [unifyLineEnds, List.append_nil] at alone
  refine ⟨alone, List.append_cancel_left (isUnified.symm.trans (unified behind)), ?_⟩
  have noReturnInTail : '\r' ∉ tail := List.not_mem_of_not_mem_cons noReturn
  rw [← unifyLineEnds_append_of_not_mem noReturnInTail, pieceAt_unifyLineEnds spelled, taken]

/-- Each step of a scan is a step in the text with unified line ends, but for a line feed that ends
a line with the carriage return before it. -/
theorem Scans.unifies
    (spelled : table.Spelled) {text before chars : List Char}
    {outcome : Except Diagnostic (List Token)} (scans : Scans table path before chars outcome)
    (isText : before ++ chars = text) {chars' : List Char}
    (isUnified : unifyLineEnds text = unifyLineEnds before ++ chars') (path' : Option String) :
    ∃ outcome', Scans table path' (unifyLineEnds before) chars' outcome' ∧
      Unifies text path path' outcome outcome' := by
  induction scans generalizing chars' with
  | @done before =>
      rw [List.append_nil] at isText
      rw [← isText, List.self_eq_append_right] at isUnified
      subst isUnified
      exact ⟨_, .done, .tokens (.cons (.intro _ _ (.intro (isText ▸ List.prefix_rfl))) .nil)⟩
  | @blank before behind char outcome isBlank _ inductionHypothesis =>
      have isText' : before ++ [char] ++ behind = text := by
        rw [← isText, List.append_assoc, List.singleton_append]
      obtain ⟨chars'', isRest⟩ := unifyLineEnds_prefix (before ++ [char]) behind
      rw [isText'] at isRest
      obtain ⟨outcome', scans', unifies⟩ := inductionHypothesis isText' isRest.symm
      refine ⟨outcome', ?_, unifies⟩
      rcases unifyLineEnds_concat before char with ended | changed
      · rw [ended] at isRest scans'
        rw [List.append_cancel_left (isUnified.symm.trans isRest.symm)]
        exact scans'
      · rw [changed] at isRest scans'
        rw [List.append_assoc] at isRest
        rw [List.append_cancel_left (isUnified.symm.trans isRest.symm)]
        refine .blank ?_ scans'
        split
        · rfl
        · exact isBlank
  | @word before tail behind first symbol tokens taken scans inductionHypothesis =>
      subst isText
      obtain ⟨isFront, rfl, taken'⟩ := word_unifyLineEnds spelled taken isUnified
      obtain ⟨outcome', scans', unifies⟩ := inductionHypothesis (List.append_assoc _ _ _)
        (by rw [isUnified, isFront, List.append_assoc])
      rw [isFront] at scans'
      cases unifies with
      | tokens alike =>
          refine ⟨_, .word taken' scans', .tokens (.cons (.intro _ _ (.intro ?_)) alike)⟩
          exact List.prefix_append _ _
  | @failed before tail behind first symbol diagnostic taken scans inductionHypothesis =>
      subst isText
      obtain ⟨isFront, rfl, taken'⟩ := word_unifyLineEnds spelled taken isUnified
      obtain ⟨outcome', scans', unifies⟩ := inductionHypothesis (List.append_assoc _ _ _)
        (by rw [isUnified, isFront, List.append_assoc])
      rw [isFront] at scans'
      cases unifies with
      | diagnostic alike => exact ⟨_, .failed taken' scans', .diagnostic alike⟩
  | @unknown before behind first problem unknown =>
      subst isText
      have noBlank : isBlank first = false := by
        by_contra isBlank
        rw [Bool.not_eq_false] at isBlank
        rw [pieceAt, if_pos isBlank] at unknown
        cases unknown
      have noReturn : first ≠ '\r' := fun isReturn => absurd (isReturn ▸ noBlank) (by decide)
      have noLineFeed : first ≠ '\n' := fun isLineFeed => absurd (isLineFeed ▸ noBlank) (by decide)
      rw [unifyLineEnds_append fun _ => by simpa using noLineFeed, unifyLineEnds_other noReturn]
        at isUnified
      rw [← List.append_cancel_left isUnified]
      refine ⟨_, .unknown ((pieceAt_unifyLineEnds spelled _ _).trans unknown), .diagnostic ?_⟩
      exact .intro problem (.intro (List.prefix_append _ _))

/-- A text and the same text with unified line ends are scanned to the same words at corresponding
places, or the same problem is found. -/
theorem scan_unifies
    (spelled : table.Spelled) (text : String) (path path' : Option String) :
    Unifies text.toList path path' (scan table text path)
      (scan table (String.ofList (unifyLineEnds text.toList)) path') := by
  obtain ⟨outcome', scans', unifies⟩ :=
    (scans_scan spelled text path).unifies spelled (List.nil_append _) (List.nil_append _).symm path'
  have isOutcome : scan table (String.ofList (unifyLineEnds text.toList)) path' = outcome' := by
    rw [scan, String.toList_ofList]
    exact scans'.scanFrom_eq
  rwa [isOutcome]

end Token

end RomanScript
