import Mathlib.Data.List.TakeWhile
import RomanScript.Proofs.Keyword.Spelled
import RomanScript.Token.Scan

/-!
# Words set apart

A word ends where a blank or a sign follows. So a word that has been taken from a text is taken
again wherever it stands before a blank, before a sign or, if it is a sign itself, before anything;
and a text that is written from such words is scanned to just these words.
-/

namespace RomanScript.Token

/-- Blanks and signs, of which no other word has any. -/
def isDelimiter (char : Char) : Bool :=
  isBlank char || (signSymbol? char).isSome

def Delimits (chars : List Char) : Prop :=
  chars.head?.all isDelimiter = true

theorem delimits_append_of_blanks
    {gap : List Char} (blanks : ∀ char ∈ gap, isBlank char = true) (behind : List Char)
    (delimits : gap = [] → Delimits behind) : Delimits (gap ++ behind) := by
  cases gap with
  | nil => exact delimits rfl
  | cons char rest =>
      have isBlank := blanks char (.head _)
      simp [Delimits, isDelimiter, isBlank]

private theorem mem_of_isDelimiter {char : Char} (isDelimiter : isDelimiter char = true) :
    char ∈ [' ', '\t', '\r', '\n', '+', '-', '*', '/', '=', '(', ')'] := by
  rcases Bool.or_eq_true_iff.mp isDelimiter with isBlank | isSign
  · have member : char ∈ [' ', '\t', '\r', '\n'] := by simpa [Token.isBlank] using isBlank
    exact List.mem_append_left ['+', '-', '*', '/', '=', '(', ')'] member
  · unfold signSymbol? at isSign
    split at isSign <;> simp_all

/-- What no delimiter of the list has, no delimiter has. -/
theorem not_of_isDelimiter
    {holds : Char → Bool}
    (none : [' ', '\t', '\r', '\n', '+', '-', '*', '/', '=', '(', ')'].any holds = false)
    {char : Char} (isDelimiter : isDelimiter char = true) : holds char = false :=
  Bool.eq_false_iff.mpr (List.any_eq_false.mp none char (mem_of_isDelimiter isDelimiter))

theorem not_isAlphanum_of_isDelimiter
    {char : Char} (isDelimiter : isDelimiter char = true) : char.isAlphanum = false :=
  not_of_isDelimiter (by decide) isDelimiter

theorem not_isNumeralLetter_of_isDelimiter
    {char : Char} (isDelimiter : isDelimiter char = true) :
    Numeral.isNumeralLetter char = false :=
  not_of_isDelimiter (by decide) isDelimiter

theorem not_isLetter_of_isDelimiter
    {char : Char} (isDelimiter : isDelimiter char = true) : Text.isLetter char = false :=
  not_of_isDelimiter (by decide +kernel) isDelimiter

/-- A run of characters that no delimiter belongs to ends with the word. -/
theorem takeWhile_append_of_delimits
    {holds : Char → Bool} (none : ∀ {char}, isDelimiter char = true → holds char = false)
    (word : List Char) {behind : List Char} (delimits : Delimits behind) :
    (word ++ behind).takeWhile holds = word.takeWhile holds := by
  have stops : behind.takeWhile holds = [] := by
    cases behind with
    | nil => rfl
    | cons char rest => exact List.takeWhile_cons_of_neg (by simp [none delimits])
  rw [List.takeWhile_append, stops, List.append_nil]
  split
  · rename_i whole
    exact ((List.takeWhile_prefix holds).eq_of_length whole).symm
  · rfl

/-- A spelling that fits ends with the word as well. -/
theorem fits_of_delimits
    {entry : Keyword.Entry} (spelled : entry.Spelled) {word behind : List Char}
    (delimits : Delimits behind) (fits : entry.Fits (word ++ behind)) : entry.Fits word := by
  rcases List.prefix_or_prefix_of_prefix fits (List.prefix_append word behind) with within | beyond
  · exact within
  · obtain ⟨rest, isSpelling⟩ := beyond
    cases rest with
    | nil =>
        rw [List.append_nil] at isSpelling
        exact isSpelling ▸ List.prefix_rfl
    | cons char rest =>
        unfold Keyword.Entry.Fits at fits
        rw [← isSpelling, List.prefix_append_right_inj] at fits
        obtain ⟨tail, rfl⟩ := fits
        have letter := spelled.2 char (isSpelling ▸ by simp)
        rw [not_isLetter_of_isDelimiter delimits] at letter
        cases letter

/-- A word need not be set apart from what follows when one of the two begins with a delimiter. -/
def Parts (word behind : List Char) : Prop :=
  Delimits word ∨ Delimits behind

/-- A word that is taken wherever it is set apart from what follows. -/
def IsWord (table : Keyword.Table) (symbol : Symbol) (word : List Char) : Prop :=
  ∃ first tail, word = first :: tail ∧
    ∀ behind, Parts word behind → pieceAt table first (tail ++ behind) = .word symbol word

section Taken

variable {table : Keyword.Table} {first : Char} {rest tail behind : List Char} {symbol : Symbol}
    {word : List Char}

/-- A word that begins with a letter is set apart by what follows. -/
theorem delimits_of_parts
    (isAlphanum : first.isAlphanum = true) (parts : Parts (first :: tail) behind) :
    Delimits behind := by
  rcases parts with isSign | delimits
  · rw [not_isAlphanum_of_isDelimiter isSign] at isAlphanum
    cases isAlphanum
  · exact delimits

theorem isAlphanum_of_isLower (isLower : first.isLower = true) : first.isAlphanum = true :=
  Bool.or_eq_true_iff.mpr (.inl (Bool.or_eq_true_iff.mpr (.inr isLower)))

theorem isAlphanum_of_isUpper (isUpper : first.isUpper = true) : first.isAlphanum = true :=
  Bool.or_eq_true_iff.mpr (.inl (Bool.or_eq_true_iff.mpr (.inl isUpper)))

theorem isUpper_of_isNumeralLetter
    {char : Char} (isLetter : Numeral.isNumeralLetter char = true) : char.isUpper = true := by
  have areUpper : ['I', 'V', 'X', 'L', 'C', 'D', 'M', 'N'].all Char.isUpper = true := by decide
  exact List.all_eq_true.mp areUpper char (List.contains_iff_mem.mp isLetter)

/-- What begins with a letter is neither a blank nor a sign. -/
theorem pieceAt_of_isAlphanum
    (isAlphanum : first.isAlphanum = true) (rest : List Char) :
    pieceAt table first rest =
      if first.isLower then .word .identifier ((first :: rest).takeWhile Char.isAlphanum)
      else if first.isUpper then capitalPiece table first rest
      else .unknown (.unexpectedCharacter first) := by
  have notDelimiter : ¬ isDelimiter first = true := by
    intro isDelimiter
    rw [not_isAlphanum_of_isDelimiter isDelimiter] at isAlphanum
    cases isAlphanum
  rw [isDelimiter, Bool.or_eq_true, not_or, Option.not_isSome_iff_eq_none] at notDelimiter
  rw [pieceAt, if_neg notDelimiter.1, notDelimiter.2]

theorem pieceAt_of_isUpper
    (isUpper : first.isUpper = true) (rest : List Char) :
    pieceAt table first rest = capitalPiece table first rest := by
  have notLower : ¬ first.isLower = true := by
    intro isLower
    have bounds : 'A'.val ≤ first.val ∧ first.val ≤ 'Z'.val := of_decide_eq_true isUpper
    have atLeast : 'a'.val ≤ first.val := of_decide_eq_true (Bool.and_eq_true_iff.mp isLower).1
    exact absurd (UInt32.le_trans atLeast bounds.2) (by decide)
  rw [pieceAt_of_isAlphanum (isAlphanum_of_isUpper isUpper), if_neg notLower, if_pos isUpper]

theorem pieceAt_sign
    (isSign : signSymbol? first = some symbol) (rest : List Char) :
    pieceAt table first rest = .word symbol [first] := by
  have notBlank : isBlank first = false := by
    unfold signSymbol? at isSign
    split at isSign <;> first | rfl | cases isSign
  simp [pieceAt, notBlank, isSign]

theorem isWord_sign (isSign : signSymbol? first = some symbol) : IsWord table symbol [first] :=
  ⟨first, [], rfl, fun behind _ => pieceAt_sign isSign behind⟩

/-- A name begins with a lower-case letter, and letters and digits follow. -/
theorem isWord_name
    (isLower : first.isLower = true) (others : ∀ char ∈ tail, char.isAlphanum = true) :
    IsWord table .identifier (first :: tail) := by
  have isAlphanum := isAlphanum_of_isLower isLower
  refine ⟨first, tail, rfl, fun behind parts => ?_⟩
  have delimits := delimits_of_parts isAlphanum parts
  have whole : (first :: tail).takeWhile Char.isAlphanum = first :: tail :=
    List.takeWhile_eq_self_iff.mpr (List.forall_mem_cons.mpr ⟨isAlphanum, others⟩)
  rw [pieceAt_of_isAlphanum isAlphanum, if_pos isLower, ← List.cons_append,
    takeWhile_append_of_delimits not_isAlphanum_of_isDelimiter (first :: tail) delimits, whole]

/-- What capital letters are taken for: the longest spelling that fits or, if that is shorter, the
run of numeral letters. -/
inductive Capital (table : Keyword.Table) (chars : List Char) : Symbol → List Char → Prop
  | keyword {entry : Keyword.Entry} :
      table.longestAt chars = some entry →
      (chars.takeWhile Numeral.isNumeralLetter).length ≤ entry.spelling.length →
      Capital table chars (.keyword entry.keyword) entry.spelling.toList
  | numeral {run : List Char} :
      chars.takeWhile Numeral.isNumeralLetter = run → run ≠ [] →
      Numeral.isNumeral (String.ofList run) = true →
      (∀ entry, table.longestAt chars = some entry → entry.spelling.length < run.length) →
      Capital table chars .numeral run

private theorem numeralPiece_eq_word
    {run : List Char} :
    numeralPiece first run = .word symbol word ↔
      run ≠ [] ∧ Numeral.isNumeral (String.ofList run) = true ∧ symbol = .numeral ∧
        word = run := by
  unfold numeralPiece
  split
  · rename_i isEmpty
    simp [List.isEmpty_iff.mp isEmpty]
  · rename_i nonempty
    split
    · rename_i isNumeral
      simp only [Piece.word.injEq]
      constructor
      · rintro ⟨rfl, rfl⟩
        exact ⟨by simpa using nonempty, isNumeral, rfl, rfl⟩
      · rintro ⟨_, _, rfl, rfl⟩
        exact ⟨rfl, rfl⟩
    · rename_i notNumeral
      simp [notNumeral]

theorem capitalPiece_eq_word :
    capitalPiece table first rest = .word symbol word ↔
      Capital table (first :: rest) symbol word := by
  unfold capitalPiece
  dsimp only
  constructor
  · intro taken
    split at taken
    · rename_i entry chosen
      split at taken
      · rename_i atMost
        cases taken
        exact .keyword chosen atMost
      · rename_i shorter
        obtain ⟨nonempty, isNumeral, rfl, rfl⟩ := numeralPiece_eq_word.mp taken
        refine .numeral rfl nonempty isNumeral fun other chosen' => ?_
        cases chosen.symm.trans chosen'
        exact Nat.lt_of_not_le shorter
    · rename_i missing
      obtain ⟨nonempty, isNumeral, rfl, rfl⟩ := numeralPiece_eq_word.mp taken
      refine .numeral rfl nonempty isNumeral fun other chosen => ?_
      rw [missing] at chosen
      cases chosen
  · rintro (⟨chosen, atMost⟩ | ⟨rfl, nonempty, isNumeral, shorter⟩)
    · rw [chosen]
      dsimp only
      rw [if_pos atMost]
    · have taken : numeralPiece first _ = .word .numeral _ :=
        numeralPiece_eq_word.mpr ⟨nonempty, isNumeral, rfl, rfl⟩
      cases chosen : table.longestAt (first :: rest) with
      | none => exact taken
      | some entry =>
          dsimp only
          rw [if_neg (Nat.not_le.mpr (shorter entry chosen))]
          exact taken

private theorem Capital.begins
    {chars : List Char} (capital : Capital table chars symbol word) : word <+: chars := by
  cases capital with
  | keyword chosen _ => exact (Keyword.longestAt_fits chosen).2
  | numeral isRun _ _ _ => exact isRun ▸ List.takeWhile_prefix _

private theorem Capital.ne_nil
    (spelled : table.Spelled) {chars : List Char} (capital : Capital table chars symbol word) :
    word ≠ [] := by
  cases capital with
  | keyword chosen _ => exact (spelled _ (Keyword.longestAt_fits chosen).1).1
  | numeral _ nonempty _ _ => exact nonempty

/-- Capital letters are taken for the same before any delimiter. -/
theorem Capital.of_delimits
    (spelled : table.Spelled) {behind' : List Char}
    (capital : Capital table (word ++ behind) symbol word) (delimits : Delimits behind') :
    Capital table (word ++ behind') symbol word := by
  have narrower : ∀ entry ∈ table.entries, entry.Fits (word ++ behind') →
      entry.Fits (word ++ behind) := fun entry member fits =>
    (fits_of_delimits (spelled entry member) delimits fits).trans (List.prefix_append _ _)
  have sameRun := takeWhile_append_of_delimits not_isNumeralLetter_of_isDelimiter word delimits
  cases capital with
  | keyword chosen _ =>
      refine .keyword ?_ ?_
      · exact Keyword.longestAt_of_narrower chosen (List.prefix_append _ _) narrower
      · rw [sameRun, ← String.length_toList]
        exact (List.takeWhile_prefix _).length_le
  | numeral isRun nonempty isNumeral shorter =>
      have whole : word.takeWhile Numeral.isNumeralLetter = word := by
        refine List.takeWhile_eq_self_iff.mpr fun char member => ?_
        rw [← isRun] at member
        exact List.mem_takeWhile_imp member
      refine .numeral (sameRun.trans whole) nonempty isNumeral fun entry chosen => ?_
      obtain ⟨member, fits⟩ := Keyword.longestAt_fits chosen
      obtain ⟨best, chosen', atMost⟩ :=
        Keyword.length_le_longestAt member (narrower entry member fits)
      exact Nat.lt_of_le_of_lt atMost (shorter best chosen')

/-- A word that is taken from a text begins the text, and it is taken wherever it is set apart. -/
theorem isWord_of_pieceAt
    (spelled : table.Spelled) (taken : pieceAt table first rest = .word symbol word) :
    IsWord table symbol word ∧ word <+: first :: rest := by
  by_cases isAlphanum : first.isAlphanum = true
  · rw [pieceAt_of_isAlphanum isAlphanum] at taken
    by_cases isLower : first.isLower = true
    · rw [if_pos isLower] at taken
      cases taken
      refine ⟨?_, List.takeWhile_prefix _⟩
      rw [List.takeWhile_cons_of_pos isAlphanum]
      exact isWord_name isLower fun char member => List.mem_takeWhile_imp member
    · rw [if_neg isLower] at taken
      split at taken
      · rename_i isUpper
        have capital := capitalPiece_eq_word.mp taken
        obtain ⟨behind, isText⟩ := capital.begins
        cases word with
        | nil => exact absurd rfl (capital.ne_nil spelled)
        | cons first' tail =>
            cases List.cons.inj isText with
            | intro sameFirst isRest =>
                subst sameFirst
                rw [← isText] at capital
                refine ⟨⟨first', tail, rfl, fun behind' parts => ?_⟩, behind, isText⟩
                rw [pieceAt_of_isUpper isUpper, capitalPiece_eq_word, ← List.cons_append]
                exact capital.of_delimits spelled (delimits_of_parts isAlphanum parts)
      · cases taken
  · unfold pieceAt at taken
    split at taken
    · cases taken
    · split at taken
      · rename_i sign isSign
        cases taken
        exact ⟨isWord_sign isSign, ⟨rest, rfl⟩⟩
      · split at taken
        · rename_i isLower
          exact absurd (isAlphanum_of_isLower isLower) isAlphanum
        · split at taken
          · rename_i isUpper
            exact absurd (isAlphanum_of_isUpper isUpper) isAlphanum
          · cases taken

end Taken

/-! ## Texts written from words -/

def lexeme (token : Token) : Symbol × String :=
  (token.symbol, token.text)

@[simp]
theorem lexeme_atPlace (place : Place) (symbol : Symbol) (text : String) :
    (atPlace place symbol text).lexeme = (symbol, text) :=
  rfl

/-- Characters that are written from words, with blanks among them at least where two words would
not be set apart without. -/
inductive Written (table : Keyword.Table) : List Char → List (Symbol × String) → Prop
  | done : Written table [] []
  | blank {char : Char} {rest : List Char} {words : List (Symbol × String)} :
      isBlank char = true → Written table rest words → Written table (char :: rest) words
  | word {symbol : Symbol} {text : String} {behind : List Char} {words : List (Symbol × String)} :
      IsWord table symbol text.toList → Parts text.toList behind →
      Written table behind words → Written table (text.toList ++ behind) ((symbol, text) :: words)

variable {table : Keyword.Table} {path : Option String}

/-- Blanks that begin a text leave its words alone. -/
theorem Written.append_blanks
    {gap behind : List Char} {words : List (Symbol × String)}
    (blanks : ∀ char ∈ gap, isBlank char = true) (written : Written table behind words) :
    Written table (gap ++ behind) words := by
  induction gap with
  | nil => exact written
  | cons char rest inductionHypothesis =>
      obtain ⟨isBlank, others⟩ := List.forall_mem_cons.mp blanks
      exact .blank isBlank (inductionHypothesis others)

/-- The rest of a word that has been taken is passed over. -/
theorem scanFrom_append (place : Place) (tail behind : List Char) :
    scanFrom table path tail.length place (tail ++ behind) =
      scanFrom table path 0 (tail.foldl Place.behind place) behind := by
  induction tail generalizing place with
  | nil => rfl
  | cons char rest inductionHypothesis => exact inductionHypothesis (place.behind char)

/-- A text that is written from words is scanned to these words. -/
theorem Written.exists_tokens
    {chars : List Char} {words : List (Symbol × String)} (written : Written table chars words)
    (path : Option String) (place : Place) :
    ∃ tokens, scanFrom table path 0 place chars = .ok tokens ∧
      tokens.map lexeme = words ++ [(.endOfText, "")] := by
  induction written generalizing place with
  | done => exact ⟨_, rfl, rfl⟩
  | @blank char rest words isBlank _ inductionHypothesis =>
      obtain ⟨tokens, scanned, lexemes⟩ := inductionHypothesis (place.behind char)
      refine ⟨tokens, ?_, lexemes⟩
      rw [Token.scanFrom, pieceAt, if_pos isBlank]
      exact scanned
  | @word symbol text behind words isWord parts _ inductionHypothesis =>
      obtain ⟨first, tail, isText, taken⟩ := isWord
      obtain ⟨tokens, scanned, lexemes⟩ :=
        inductionHypothesis (tail.foldl Place.behind (place.behind first))
      refine ⟨atPlace place symbol text :: tokens, ?_, by simp [lexemes]⟩
      have isPiece := taken behind parts
      have isBehind : scanFrom table path (text.toList.length - 1) (place.behind first)
          (tail ++ behind) = .ok tokens := by
        rw [isText, List.length_cons, Nat.add_sub_cancel, scanFrom_append, scanned]
      rw [isText, List.cons_append, Token.scanFrom, isPiece]
      dsimp only
      rw [isBehind, String.ofList_toList]

/-- The tokens of a text are words that are taken wherever they are set apart, and its end. -/
theorem words_of_scanFrom
    (spelled : table.Spelled) {skip : Nat} {place : Place} {chars : List Char}
    {tokens : List Token} (scanned : Token.scanFrom table path skip place chars = .ok tokens) :
    ∃ words, tokens.map lexeme = words ++ [(.endOfText, "")] ∧
      ∀ word ∈ words, IsWord table word.1 word.2.toList := by
  induction chars generalizing skip place tokens with
  | nil =>
      rw [Token.scanFrom] at scanned
      cases scanned
      exact ⟨[], rfl, nofun⟩
  | cons char rest inductionHypothesis =>
      cases skip with
      | succ skip => exact inductionHypothesis scanned
      | zero =>
          rw [Token.scanFrom] at scanned
          split at scanned
          · exact inductionHypothesis scanned
          · rename_i symbol word taken
            split at scanned
            · rename_i others scanned'
              cases scanned
              obtain ⟨words, lexemes, areWords⟩ := inductionHypothesis scanned'
              refine ⟨(symbol, String.ofList word) :: words, by simp [lexemes], ?_⟩
              refine List.forall_mem_cons.mpr ⟨?_, areWords⟩
              rw [String.toList_ofList]
              exact (isWord_of_pieceAt spelled taken).1
            · cases scanned
          · cases scanned

end RomanScript.Token
