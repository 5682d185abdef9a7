import RomanScript.Proofs.Program.Phrased
import RomanScript.Proofs.Token.Words

/-!
# How programs in writing are scanned

The text of a program that can be written is scanned to the tokens that it is meant to have: blanks
and parentheses set its words apart, and each word is taken for what it is.
-/

namespace RomanScript

open Token

namespace Token

/-- No usual keyword stands at the beginning of numeral letters alone. -/
theorem longestAt_usual_of_isNumeralLetter
    {chars : List Char} (letters : ∀ char ∈ chars, Numeral.isNumeralLetter char = true) :
    Keyword.Table.usual.longestAt chars = none := by
  have others : ∀ entry ∈ Keyword.Table.usual.entries,
      entry.spelling.toList.all Numeral.isNumeralLetter ≠ true := by
    decide
  cases chosen : Keyword.Table.usual.longestAt chars with
  | none => rfl
  | some entry =>
      obtain ⟨member, fits⟩ := Keyword.longestAt_fits chosen
      refine absurd (List.all_eq_true.mpr fun char inSpelling => ?_) (others entry member)
      exact letters char (fits.subset inSpelling)

/-- Beside the usual keywords, a numeral is a word. -/
theorem isWord_numeral
    {text : String} (isNumeral : Numeral.isNumeral text = true)
    (letters : ∀ char ∈ text.toList, Numeral.isNumeralLetter char = true) :
    IsWord .usual .numeral text.toList := by
  have nonempty : text.toList ≠ [] := by
    intro empty
    rw [String.toList_eq_nil_iff.mp empty] at isNumeral
    cases isNumeral
  have capital : Capital .usual text.toList .numeral text.toList := by
    apply Capital.numeral (List.takeWhile_eq_self_iff.mpr letters) nonempty
    · rwa [String.ofList_toList]
    · intro entry chosen
      rw [longestAt_usual_of_isNumeralLetter letters] at chosen
      cases chosen
  cases chars : text.toList with
  | nil => exact absurd chars nonempty
  | cons first tail =>
      rw [chars] at capital letters
      have taken : pieceAt .usual first tail = .word .numeral (first :: tail) := by
        rw [pieceAt_of_isUpper (isUpper_of_isNumeralLetter (letters first (.head _)))]
        exact capitalPiece_eq_word.mpr capital
      exact (isWord_of_pieceAt Keyword.spelled_usual taken).1

private theorem isWord_of_isName {name : String} (named : isName name = true) :
    IsWord .usual .identifier name.toList := by
  unfold isName at named
  cases chars : name.toList with
  | nil =>
      rw [chars] at named
      cases named
  | cons first rest =>
      rw [chars, Bool.and_eq_true, List.all_eq_true] at named
      exact isWord_name named.1 named.2

/-- Every usual keyword is a word. -/
theorem isWord_keyword
    {entry : Keyword.Entry} (member : entry ∈ Keyword.Table.usual.entries) :
    IsWord .usual (.keyword entry.keyword) entry.spelling.toList := by
  have taken : ∀ entry ∈ Keyword.Table.usual.entries, ∃ first tail,
      pieceAt .usual first tail = .word (.keyword entry.keyword) entry.spelling.toList := by
    simp only [Keyword.Table.usual, List.forall_mem_cons]
    exact ⟨⟨'A', "s".toList, rfl⟩, ⟨'M', "unus".toList, rfl⟩, ⟨'G', "rafo".toList, rfl⟩,
      ⟨'A', "nagnosi".toList, rfl⟩, ⟨'S', "inon".toList, rfl⟩,
      List.forall_mem_nil _⟩
  obtain ⟨first, tail, isPiece⟩ := taken entry member
  exact (isWord_of_pieceAt Keyword.spelled_usual isPiece).1

/-- A text is scanned to some tokens wherever a delimiter or nothing follows it. -/
def Inscribes (text : String) (tokens : List Token) : Prop :=
  ∀ behind words, Delimits behind → Written .usual behind words →
    Written .usual (text.toList ++ behind) (tokens.map lexeme ++ words)

namespace Inscribes

variable {text text' : String} {tokens tokens' : List Token}

private theorem word {symbol : Symbol} (isWord : IsWord .usual symbol text.toList) :
    Inscribes text [.unplaced symbol text] :=
  fun _ _ delimits written => .word isWord (.inr delimits) written

private theorem map
    {α : Type} {write : α → String} {spell : α → List Token} {items : List α}
    (inscribes : ∀ item ∈ items, Inscribes (write item) (spell item)) :
    List.Forall₂ Inscribes (items.map write) (items.map spell) := by
  rw [List.forall₂_map_left_iff, List.forall₂_map_right_iff, List.forall₂_same]
  exact inscribes

/-- Texts are inscribed one behind the other with blanks between them. -/
theorem append_blanks
    {gap : String} (areBlank : gap.toList.all isBlank = true) (nonempty : gap ≠ "")
    (first : Inscribes text tokens) (second : Inscribes text' tokens') :
    Inscribes (text ++ gap ++ text') (tokens ++ tokens') := by
  intro behind words delimits written
  have blanks := List.all_eq_true.mp areBlank
  have apart : Delimits (gap.toList ++ (text'.toList ++ behind)) :=
    delimits_append_of_blanks blanks _ fun empty =>
      absurd (String.toList_eq_nil_iff.mp empty) nonempty
  have both := first _ _ apart (.append_blanks blanks (second behind words delimits written))
  simpa [String.toList_append] using both

private theorem intercalate
    {gap : String} (areBlank : gap.toList.all isBlank = true) (nonempty : gap ≠ "")
    {texts : List String} {parts : List (List Token)}
    (inscribes : List.Forall₂ Inscribes texts parts) :
    Inscribes (gap.intercalate texts) parts.flatten := by
  induction inscribes with
  | nil => exact fun behind words _ written => by simpa using written
  | cons first others inductionHypothesis =>
      cases others with
      | nil => simpa using first
      | cons second others =>
          rw [String.intercalate_cons_cons, List.flatten_cons]
          exact first.append_blanks areBlank nonempty inductionHypothesis

private theorem spaced
    {texts : List String} {parts : List (List Token)}
    (inscribes : List.Forall₂ Inscribes texts parts) :
    Inscribes (" ".intercalate texts) parts.flatten :=
  intercalate (by decide) (by decide) inscribes

private theorem parenthesised (inscribes : Inscribes text tokens) :
    Inscribes (Expression.parenthesised text)
      (Spelling.opening :: tokens ++ [Spelling.closing]) := by
  intro behind words delimits written
  have isOpening : IsWord .usual .openParen "(".toList := isWord_sign rfl
  have isClosing : IsWord .usual .closeParen ")".toList := isWord_sign rfl
  have closed : Written .usual (")".toList ++ behind) ((.closeParen, ")") :: words) :=
    .word isClosing (.inr delimits) written
  have delimited : Delimits (")".toList ++ behind) := (rfl : isDelimiter ')' = true)
  have inner := inscribes _ _ delimited closed
  have opened : Written .usual ("(".toList ++ _) ((.openParen, "(") :: _) :=
    .word isOpening (.inl rfl) inner
  have lexemes : (Spelling.opening :: tokens ++ [Spelling.closing]).map lexeme ++ words =
      (.openParen, "(") :: (tokens.map lexeme ++ (.closeParen, ")") :: words) := by
    simp [lexeme, Spelling.opening, Spelling.closing, unplaced]
  rw [lexemes]
  simpa [Expression.parenthesised, String.toList_append] using opened

end Inscribes

end Token

private theorem Operator.inscribes (operator : Operator) : Inscribes operator.sign [operator.token] := by
  apply Inscribes.word
  cases operator <;> exact isWord_sign rfl

private theorem Token.inscribes_keyword {word : Keyword} {spelling : String}
    (member : ⟨spelling, word⟩ ∈ Keyword.Table.usual.entries) :
    Inscribes spelling [.unplaced (.keyword word) spelling] :=
  .word (isWord_keyword member)

private theorem Token.inscribes_equals : Inscribes "=" [.unplaced .equals "="] :=
  .word (isWord_sign rfl)

private theorem Token.inscribes_name {name : String} (named : isName name = true) :
    Inscribes name [.unplaced .identifier name] :=
  .word (isWord_of_isName named)

private theorem Token.inscribes_literal {value : Int} (nonneg : 0 ≤ value) (low : value ≤ 3999) :
    Inscribes (Numeral.ofNat value.toNat) [.unplaced .numeral (Numeral.ofNat value.toNat)] := by
  apply Inscribes.word (isWord_numeral _ fun _ => Numeral.isNumeralLetter_of_mem_ofNat)
  rw [← Numeral.isSome_value?, Numeral.value?_ofNat_toNat nonneg low]
  rfl

namespace Expression

variable {signatures : Program.Signatures} {scope : List String} {expression : Expression}

/-- An expression that can be written is scanned to its tokens. -/
theorem Writable.inscribes (writable : expression.Writable signatures scope) :
    Inscribes expression.text expression.spelling.1 := by
  induction writable with
  | literal nonneg low =>
      rw [text, spelling]
      exact inscribes_literal nonneg low
  | named named _ =>
      rw [text, spelling]
      exact inscribes_name named
  | input => exact inscribes_keyword (by decide)
  | @unary operator _ _ _ operand =>
      have parts := Inscribes.spaced (.cons operator.inscribes (.cons operand.parenthesised .nil))
      rw [text, spelling]
      simpa [Spelling.signed, Spelling.enclosed] using parts
  | binary operator _ _ left right =>
      have parts := Inscribes.spaced
        (.cons left.parenthesised (.cons operator.inscribes (.cons right.parenthesised .nil)))
      rw [text, spelling]
      simpa [Spelling.joined, Spelling.enclosed] using parts
  | conditional _ _ _ condition consequence alternative =>
      have keyword : Inscribes "Sinon" [.unplaced (.keyword .choose) "Sinon"] :=
        inscribes_keyword (by decide)
      have parts := Inscribes.spaced (.cons keyword (.cons condition.parenthesised
        (.cons consequence.parenthesised (.cons alternative.parenthesised .nil))))
      rw [text, spelling]
      simpa [Spelling.chosen, Spelling.enclosed] using parts
  | @call name arguments named _ _ _ inscribesArguments =>
      have others : List.Forall₂ Inscribes
          (arguments.map fun argument => parenthesised argument.text)
          (arguments.map fun argument => argument.spelling.enclosed.1) :=
        Inscribes.map fun argument member => (inscribesArguments argument member).parenthesised
      have parts := Inscribes.spaced (.cons (inscribes_name named) others)
      rw [text, spelling, argumentTexts_eq_map, argumentSpellings_eq_map, Spelling.applied_fst]
      simpa [List.flatMap_def, Function.comp_def] using parts

end Expression

namespace Program

variable {program : Program}

private theorem Writable.inscribes_function
    (writable : program.Writable) {function : Function} (member : function ∈ program.functions) :
    Inscribes function.text function.spelling.1 := by
  have isNamed : ∀ name ∈ function.name :: function.parameters, isName name = true :=
    fun name isPart => writable.names name (List.mem_append_left _
      (List.mem_flatMap.mpr ⟨function, member, isPart⟩))
  have keyword : Inscribes "Munus" [.unplaced (.keyword .define) "Munus"] :=
    inscribes_keyword (by decide)
  have names : List.Forall₂ Inscribes ((function.name :: function.parameters).map id)
      ((function.name :: function.parameters).map fun name => [.unplaced .identifier name]) :=
    Inscribes.map fun name isPart => inscribes_name (isNamed name isPart)
  have body := (writable.body member).inscribes
  have parts := Inscribes.spaced
    (.cons keyword (List.rel_append names (.cons inscribes_equals (.cons body .nil))))
  simpa [Function.text, Function.spelling, ← List.flatMap_def, ← List.map_eq_flatMap] using parts

private theorem Writable.inscribes_statement
    (writable : program.Writable) {statement : Statement}
    (member : statement ∈ program.statements) :
    Inscribes statement.text statement.spelling.1 := by
  obtain ⟨before, behind, split⟩ := List.append_of_mem member
  have value := (writable.value split).inscribes
  cases statement with
  | declaration name _ =>
      have isNamed : isName name = true := by
        refine writable.names name (List.mem_append_right _ ?_)
        exact List.mem_filterMap.mpr ⟨_, member, rfl⟩
      have keyword : Inscribes "As" [.unplaced (.keyword .declare) "As"] :=
        inscribes_keyword (by decide)
      have parts := Inscribes.spaced (.cons keyword (.cons (inscribes_name isNamed)
        (.cons inscribes_equals (.cons value .nil))))
      simpa [Statement.text, Statement.spelling, Statement.value] using parts
  | output _ =>
      have keyword : Inscribes "Grafo" [.unplaced (.keyword .output) "Grafo"] :=
        inscribes_keyword (by decide)
      have parts := Inscribes.spaced (.cons keyword (.cons value .nil))
      simpa [Statement.text, Statement.spelling, Statement.value] using parts

/-- A program that can be written is scanned to its tokens, at whatever places. -/
theorem Writable.exists_tokens (writable : program.Writable) (path : Option String) :
    ∃ tokens, scan .usual program.text path = .ok tokens ∧
      program.tokens.map lexeme = tokens.map lexeme := by
  have lines : List.Forall₂ Inscribes program.lines (program.spellings.map (·.1)) := by
    rw [lines, spellings, List.map_append, List.map_map, List.map_map]
    apply List.rel_append
    · exact Inscribes.map fun function member => writable.inscribes_function member
    · exact Inscribes.map fun statement member => writable.inscribes_statement member
  have inscribed : Inscribes program.text _ := .intercalate (by decide) (by decide) lines
  have written := inscribed [] [] rfl .done
  obtain ⟨tokens, scanned, lexemes⟩ := written.exists_tokens path Place.start
  rw [List.append_nil] at scanned
  refine ⟨tokens, scanned, ?_⟩
  rw [lexemes, List.append_nil, ← List.flatMap_def, Program.tokens, List.map_append]
  rfl

end Program

end RomanScript
