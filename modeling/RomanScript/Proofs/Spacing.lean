import RomanScript.Compilation
import RomanScript.Proofs.Compilation
import RomanScript.Proofs.Program.Moved
import RomanScript.Proofs.Reading.Moved
import RomanScript.Proofs.Token.Words

/-!
# Texts that differ in their spacing

The words of a text may be set apart by any blanks. What a text is compiled to does not depend on
them, except that a diagnostic stands where its word stands.
-/

namespace RomanScript

/-- A gap before each of some tokens, the last of which marks the end of the text. Gaps are made of
blanks, and only the first and the last may be empty. -/
structure Spacing (tokens : List Token) where
  gaps : List String
  size : gaps.length = tokens.length
  blank : ∀ gap ∈ gaps, ∀ char ∈ gap.toList, Token.isBlank char = true
  apart : ∀ gap ∈ gaps.tail.dropLast, gap ≠ ""

/-- The text in which the texts of the tokens stand behind their gaps. -/
def Spacing.text {tokens : List Token} (spacing : Spacing tokens) : String :=
  String.join (List.zipWith (· ++ ·) spacing.gaps (tokens.map Token.text))

namespace Token

variable {table : Keyword.Table}

/-- Texts behind gaps begin with the first gap. -/
theorem join_gaps (gap text : String) (gaps texts : List String) :
    (String.join (List.zipWith (· ++ ·) (gap :: gaps) (text :: texts))).toList =
      gap.toList ++ (text.toList ++ (String.join (List.zipWith (· ++ ·) gaps texts)).toList) := by
  simp [String.join_cons, String.toList_append]

/-- Words behind gaps, of which only the first and the last may be empty, are written one after
another. -/
theorem written_of_gaps
    {words : List (Symbol × String)} {gaps : List String}
    (areWords : ∀ word ∈ words, IsWord table word.1 word.2.toList)
    (size : gaps.length = words.length + 1)
    (blank : ∀ gap ∈ gaps, ∀ char ∈ gap.toList, isBlank char = true)
    (apart : ∀ gap ∈ gaps.tail.dropLast, gap ≠ "") :
    Written table
      (String.join (List.zipWith (· ++ ·) gaps (words.map Prod.snd ++ [""]))).toList words := by
  induction words generalizing gaps with
  | nil =>
      obtain ⟨gap, rfl⟩ := List.length_eq_one_iff.mp size
      have written := Written.append_blanks (blank gap (.head _)) (Written.done : Written table _ _)
      simpa using written
  | cons word rest inductionHypothesis =>
      obtain ⟨symbol, text⟩ := word
      obtain ⟨isWord, others⟩ := List.forall_mem_cons.mp areWords
      match gaps with
      | gap :: next :: gaps =>
          obtain ⟨blankGap, blankRest⟩ := List.forall_mem_cons.mp blank
          rw [List.map_cons, List.cons_append, join_gaps]
          apply Written.append_blanks blankGap
          have sizeRest : (next :: gaps).length = rest.length + 1 := by simpa using size
          refine .word isWord (.inr ?_) (inductionHypothesis others sizeRest blankRest ?_)
          · -- The next gap is empty only at the end of the text.
            cases rest with
            | nil =>
                rw [List.map_nil, List.nil_append, join_gaps]
                apply delimits_append_of_blanks (blankRest next (.head _))
                intro _
                cases gaps <;> simp [Delimits] at size ⊢
            | cons other rest =>
                rw [List.map_cons, List.cons_append, join_gaps]
                apply delimits_append_of_blanks (blankRest next (.head _))
                intro empty
                refine absurd (String.toList_eq_nil_iff.mp empty) (apart next ?_)
                cases gaps with
                | nil => simp at size
                | cons => simp
          · intro inner member
            apply apart inner
            cases gaps with
            | nil => simp at member
            | cons => simpa using .inr member

/-- However its words are spaced, a text is scanned to the same words. -/
theorem exists_scan_text
    (spelled : table.Spelled) {source : String} {path : Option String} {tokens : List Token}
    (scanned : scan table source path = .ok tokens) (spacing : Spacing tokens) :
    ∃ tokens', scan table spacing.text path = .ok tokens' ∧
      tokens.map lexeme = tokens'.map lexeme := by
  obtain ⟨words, lexemes, areWords⟩ := words_of_scanFrom spelled scanned
  have texts : tokens.map Token.text = words.map Prod.snd ++ [""] := by
    have texts := congrArg (List.map Prod.snd) lexemes
    simpa [Function.comp_def, lexeme] using texts
  have size : spacing.gaps.length = words.length + 1 := by
    have sizes := congrArg List.length lexemes
    rw [spacing.size]
    simpa using sizes
  have written := written_of_gaps areWords size spacing.blank spacing.apart
  rw [← texts] at written
  obtain ⟨tokens', scanned', lexemes'⟩ := written.exists_tokens path Place.start
  exact ⟨tokens', scanned', lexemes.trans lexemes'.symm⟩

end Token

namespace Compilation

/-- The same program, or the same problem at tokens of the same index. -/
inductive Moved (lefts rights : List Token) (path : Option String) :
    Compilation → Compilation → Prop
  | program (program : Program) :
      Moved lefts rights path ⟨some program, none⟩ ⟨some program, none⟩
  | diagnostic {x y : Diagnostic} :
      x.Moved lefts rights path y → Moved lefts rights path ⟨none, some x⟩ ⟨none, some y⟩

/-- The tree that legible tokens are read to is lowered, or the name of a token is wrong in it. -/
theorem judged_of_ofTokens
    {tokens : List Token} {path : Option String} {tree : Tree}
    (legible : ∀ token ∈ tokens, token.Legible) (parsed : Tree.ofTokens tokens path = .ok tree) :
    ∃ root, tree = ⟨root, path⟩ ∧ root.Regular ∧ root.IsBranch [.program] ∧
      Program.Judged path root.leaves (Program.ofNode path root) := by
  obtain ⟨root, rfl, regular, branch, legibleLeaves⟩ := Tree.exists_of_ofTokens legible parsed
  exact ⟨root, rfl, regular, branch, Program.judged_ofNode regular branch legibleLeaves⟩

/-- However the words of a text are spaced, they are scanned to the same words and compiled to the
same program, or the same problem is found at the same word. -/
theorem ofSource_spacing
    {origin : Keyword.Source} {table : Keyword.Table} (loaded : origin.load = .ok table)
    {source : String} {path : Option String} {tokens : List Token}
    (scanned : Token.scan table source path = .ok tokens) (spacing : Spacing tokens) :
    ∃ tokens', Token.scan table spacing.text path = .ok tokens' ∧
      tokens.map Token.lexeme = tokens'.map Token.lexeme ∧
        ∃ compilation log compilation' log',
          ofSource table source path = .ok (compilation, log) ∧
            ofSource table spacing.text path = .ok (compilation', log') ∧
              Moved tokens tokens' path compilation compilation' := by
  have spelled := Keyword.spelled_of_load loaded
  obtain ⟨tokens', scanned', lexemes⟩ := Token.exists_scan_text spelled scanned spacing
  refine ⟨tokens', scanned', lexemes, ?_⟩
  obtain ⟨finished, legible⟩ : Token.Scanned path (.ok tokens) :=
    scanned ▸ Token.scanned_scan table source path
  obtain ⟨finished', legible'⟩ : Token.Scanned path (.ok tokens') :=
    scanned' ▸ Token.scanned_scan table spacing.text path
  have parses := Tree.parsed_ofTokens finished path
  have moved := Tree.moved_ofTokens finished lexemes path
  unfold ofSource
  rw [scanned, scanned']
  dsimp only
  generalize parsed : Tree.ofTokens tokens path = result at moved parses
  generalize parsed' : Tree.ofTokens tokens' path = result' at moved
  cases moved with
  | misuse => cases parses
  | diagnostic moved => exact ⟨_, _, _, _, rfl, rfl, .diagnostic moved⟩
  | value trees =>
      obtain ⟨_, _, movedRoots⟩ := trees
      obtain ⟨root, rfl, regular, branch, judged⟩ := judged_of_ofTokens legible parsed
      obtain ⟨root', rfl, _⟩ := judged_of_ofTokens legible' parsed'
      have moved := Program.moved_ofNode regular branch movedRoots path
      dsimp only [Program.ofTree]
      generalize Program.ofNode path root = lowered at moved judged
      generalize Program.ofNode path root' = lowered' at moved
      cases moved with
      | misuse => cases judged
      | diagnostic moved => exact ⟨_, _, _, _, rfl, rfl, .diagnostic moved⟩
      | value same =>
          cases same
          exact ⟨_, _, _, _, rfl, rfl, .program _⟩

def declaration : List Token :=
  [⟨.keyword .declare, "As", 1, 0⟩, ⟨.identifier, "x", 1, 3⟩, ⟨.equals, "=", 1, 4⟩,
    ⟨.numeral, "I", 1, 5⟩, ⟨.endOfText, "", 1, 6⟩]

def twoLines : Spacing declaration where
  gaps := ["\t", "\r\n", " ", " ", ""]
  size := rfl
  blank := by simp [Token.isBlank]
  apart := by decide

theorem ofSource_spacing_twoLines :
    twoLines.text = "\tAs\r\nx = I" ∧
      Token.scan .usual "As x=I" none = .ok declaration ∧
        ∃ tokens', Token.scan .usual twoLines.text none = .ok tokens' ∧
          declaration.map Token.lexeme = tokens'.map Token.lexeme ∧
            ∃ compilation log compilation' log',
              ofSource .usual "As x=I" none = .ok (compilation, log) ∧
                ofSource .usual twoLines.text none = .ok (compilation', log') ∧
                  Moved declaration tokens' none compilation compilation' := by
  have scanned : Token.scan .usual "As x=I" none = .ok declaration := by decide +kernel
  have loaded : Keyword.Source.usual.load = .ok .usual := rfl
  exact ⟨by decide, scanned, ofSource_spacing loaded scanned twoLines⟩

end Compilation

end RomanScript
