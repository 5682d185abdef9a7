import Mathlib.Data.List.Nodup
import RomanScript.Proofs.Document.Keyed
import RomanScript.Proofs.Token.Scans

/-!
# Keywords that are found again

A spelling of a table is scanned to its keyword if its first letter is one of the capitals from `A`
to `Z`. Other capitals are allowed in a table, but no word of a text begins with one.
-/

namespace RomanScript

namespace Keyword

/-- A document that a table comes from must have distinct keys, as every text gives them. -/
def Source.Keyed : Source → Prop
  | document given => given.Keyed
  | usual | text _ => True

/-- The spellings of a table are distinct and begin with a capital letter. -/
structure Table.Usable (table : Table) : Prop where
  distinct : (table.entries.map Entry.spelling).Nodup
  isSpelling : ∀ entry ∈ table.entries, Keyword.isSpelling entry.spelling = true

variable {table : Table}

private theorem Table.Usable.spelled (usable : table.Usable) : table.Spelled :=
  fun entry member => spelled_of_isSpelling (usable.isSpelling entry member) entry.keyword

private theorem usable_usual : Table.usual.Usable where
  distinct := by decide
  isSpelling := by
    have areSpellings :
        Table.usual.entries.all (fun entry => isSpelling entry.spelling) = true := by
      decide +kernel
    exact List.all_eq_true.mp areSpellings

private theorem usable_of_loadDocument
    {document : Document} (keyed : document.Keyed) (loaded : loadDocument document = .ok table) :
    table.Usable where
  distinct := by
    have isTable := (load_document_eq_ok_iff.mp loaded).1
    cases keyed.of_entry? isTable with
    | simple isKey => cases isKey
    | mapping apart _ =>
        rw [Document.KeysApart, List.map_map, List.pairwise_map] at apart
        refine List.pairwise_map.mpr (apart.imp fun differ => ?_)
        exact beq_eq_false_iff_ne.mp differ
  isSpelling _ member := isSpelling_of_load_document loaded member

/-- Whatever the source, a table that is loaded is usable. -/
theorem usable_of_load
    {origin : Source} (keyed : origin.Keyed) (loaded : origin.load = .ok table) :
    table.Usable := by
  cases origin with
  | usual =>
      cases loaded
      exact usable_usual
  | document given => exact usable_of_loadDocument keyed loaded
  | text content =>
      unfold Source.load at loaded
      dsimp only at loaded
      split at loaded
      · rename_i given meaning
        exact usable_of_loadDocument (Document.keyed_of_ofText? meaning) loaded
      · cases loaded

/-- A table that is found was loaded. -/
theorem load_of_toOption
    {origin : Source} (found : origin.load.toOption = some table) : origin.load = .ok table := by
  cases loaded : origin.load with
  | error failure =>
      rw [loaded] at found
      cases found
  | ok other =>
      rw [loaded] at found
      exact congrArg Except.ok (Option.some.inj found)

/-- The usual spellings, but for one that begins with an accented capital. -/
def accentedText : String :=
  "keywords:\n  Ét: AS\n  Munus: MUNUS\n  Grafo: GRAFO\n  Anagnosi: ANAGNOSI\n  Sinon: SINON\n"

def Table.accented : Table where
  entries := [
    ⟨"Ét", declare⟩, ⟨"Munus", define⟩, ⟨"Grafo", output⟩, ⟨"Anagnosi", input⟩, ⟨"Sinon", choose⟩]

private theorem load_accentedText : (Source.text accentedText).load = .ok .accented :=
  load_of_toOption (by decide +kernel)

/-- Before a delimiter no other entry is as long as one that ends there. -/
theorem Table.Usable.longestAt_spelling
    (usable : table.Usable) {entry : Entry} (member : entry ∈ table.entries) {behind : List Char}
    (delimits : Token.Delimits behind) :
    table.longestAt (entry.spelling.toList ++ behind) = some entry := by
  obtain ⟨best, chosen, atMost⟩ :=
    length_le_longestAt member (List.prefix_append entry.spelling.toList behind)
  obtain ⟨isEntry, fits⟩ := longestAt_fits chosen
  have within : best.spelling.toList <+: entry.spelling.toList :=
    Token.fits_of_delimits (usable.spelled best isEntry) delimits fits
  have same : entry.spelling = best.spelling :=
    (String.toList_inj.mp (within.eq_of_length_le
      (by rwa [String.length_toList, String.length_toList]))).symm
  rw [chosen, List.inj_on_of_nodup_map usable.distinct member isEntry same]

end Keyword

namespace Token

variable {table : Keyword.Table} {path : Option String} {entry : Keyword.Entry}
    {first : Char} {tail behind : List Char}

private theorem not_isLower_of_isUppercase
    {char : Char} (isUppercase : Text.isUppercase char = true) : char.isLower = false := by
  have none : (List.range' 97 26).all (fun code =>
      !Text.uppercase.any (·.covers code)) = true := by
    decide +kernel
  rw [Bool.eq_false_iff]
  intro isLower
  obtain ⟨atLeast, atMost⟩ := Bool.and_eq_true_iff.mp isLower
  have bounds : 97 ≤ char.toNat ∧ char.toNat ≤ 122 :=
    ⟨of_decide_eq_true atLeast, of_decide_eq_true atMost⟩
  have notCovered := List.all_eq_true.mp none char.toNat (List.mem_range'_1.mpr (by omega))
  rw [Text.isUppercase, Text.CharClass.contains] at isUppercase
  rw [isUppercase] at notCovered
  cases notCovered

/-- Before a delimiter a spelling is taken for its keyword if it begins with a capital from `A` to
`Z`, and else not known. -/
theorem pieceAt_spelling
    (usable : table.Usable) (member : entry ∈ table.entries)
    (isText : entry.spelling.toList = first :: tail) (delimits : Delimits behind) :
    pieceAt table first (tail ++ behind) =
      if first.isUpper then .word (.keyword entry.keyword) (first :: tail)
      else .unknown (.unexpectedCharacter first) := by
  split
  · rename_i isUpper
    have run : (entry.spelling.toList ++ behind).takeWhile Numeral.isNumeralLetter =
        entry.spelling.toList.takeWhile Numeral.isNumeralLetter :=
      takeWhile_append_of_delimits not_isNumeralLetter_of_isDelimiter _ delimits
    rw [pieceAt_of_isUpper isUpper, capitalPiece_eq_word, ← List.cons_append, ← isText]
    refine .keyword (usable.longestAt_spelling member delimits) ?_
    rw [run, ← String.length_toList]
    exact (List.takeWhile_prefix _).length_le
  · rename_i notUpper
    obtain ⟨begins, letters⟩ :=
      Bool.and_eq_true_iff.mp (usable.isSpelling entry member)
    rw [isText] at begins letters
    have notDelimiter : ¬ isDelimiter first = true := by
      intro isDelimiter
      have isLetter := List.all_eq_true.mp letters first (.head _)
      rw [not_isLetter_of_isDelimiter isDelimiter] at isLetter
      cases isLetter
    rw [isDelimiter, Bool.or_eq_true, not_or, Option.not_isSome_iff_eq_none] at notDelimiter
    rw [pieceAt, if_neg notDelimiter.1, notDelimiter.2]
    dsimp only
    rw [not_isLower_of_isUppercase begins, if_neg Bool.false_ne_true, if_neg notUpper]

private theorem Place.after_of_not_mem
    {chars : List Char} (oneLine : '\n' ∉ chars) : after chars = ⟨1, chars.length⟩ := by
  have whole : chars.reverse.takeWhile (· != '\n') = chars.reverse := by
    refine List.takeWhile_eq_self_iff.mpr fun char member => ?_
    rw [List.mem_reverse] at member
    exact bne_iff_ne.mpr fun endsLine => oneLine (endsLine ▸ member)
  rw [after, whole, List.count_eq_zero_of_not_mem oneLine, List.length_reverse]

private theorem place_after_spelling
    (usable : table.Usable) (member : entry ∈ table.entries) :
    Place.after entry.spelling.toList = ⟨1, entry.spelling.length⟩ := by
  have oneLine : '\n' ∉ entry.spelling.toList := by
    intro isIn
    have isLetter := (usable.spelled entry member).2 _ isIn
    rw [not_isLetter_of_isDelimiter (by decide)] at isLetter
    cases isLetter
  rw [Place.after_of_not_mem oneLine, String.length_toList]

/-- The text that is nothing but a spelling. -/
theorem scan_spelling
    (usable : table.Usable) (member : entry ∈ table.entries)
    (isText : entry.spelling.toList = first :: tail) :
    scan table entry.spelling path =
      if first.isUpper then
        .ok [⟨.keyword entry.keyword, entry.spelling, 1, 0⟩,
          ⟨.endOfText, "", 1, entry.spelling.length⟩]
      else .error ⟨.unexpectedCharacter first, 1, 0, path⟩ := by
  have isPiece := pieceAt_spelling usable member isText (rfl : Delimits [])
  have place := place_after_spelling usable member
  rw [isText] at place
  rw [List.append_nil] at isPiece
  rw [scan, isText, scanFrom, isPiece]
  by_cases isUpper : first.isUpper = true
  · have goesOn : scanFrom table path ((first :: tail).length - 1) (Place.start.behind first) tail =
        .ok [atPlace ⟨1, entry.spelling.length⟩ .endOfText ""] := by
      have passed : scanFrom table path tail.length (Place.start.behind first) (tail ++ []) = _ :=
        scanFrom_append (Place.start.behind first) tail []
      rw [List.append_nil] at passed
      rw [List.length_cons, Nat.add_sub_cancel, passed, ← Place.after_nil, ← Place.after_concat,
        Place.foldl_behind, List.nil_append, List.singleton_append, place, scanFrom]
    rw [if_pos isUpper, if_pos isUpper]
    dsimp only
    rw [goesOn, ← isText, String.ofList_toList]
    rfl
  · rw [if_neg isUpper, if_neg isUpper]
    rfl

/-- What holds of no delimiter does not hold of a blank. -/
theorem not_isBlank_of
    {holds : Char → Bool} (none : ∀ {char}, isDelimiter char = true → holds char = false)
    {char : Char} (fact : holds char = true) : isBlank char = false := by
  rw [Bool.eq_false_iff]
  intro isBlank
  rw [none (Bool.or_eq_true_iff.mpr (.inl isBlank))] at fact
  cases fact

private theorem not_isBlank_of_sign
    {symbol : Symbol} (isSign : signSymbol? first = some symbol) : isBlank first = false := by
  unfold signSymbol? at isSign
  split at isSign <;> first | rfl | cases isSign

/-- No word has a blank in it. -/
theorem Stands.not_isBlank
    (spelled : table.Spelled) {rest word : List Char} {symbol : Symbol}
    (stands : Stands table first rest (.word symbol word)) :
    ∀ char ∈ word, isBlank char = false := by
  intro char member
  cases stands with
  | sign isSign =>
      rw [List.mem_singleton.mp member]
      exact not_isBlank_of_sign isSign
  | name => exact not_isBlank_of not_isAlphanum_of_isDelimiter (List.mem_takeWhile_imp member)
  | capital _ capital =>
      cases capital with
      | keyword chosen _ =>
          obtain ⟨isEntry, _⟩ := Keyword.longestAt_fits chosen
          exact not_isBlank_of not_isLetter_of_isDelimiter ((spelled _ isEntry).2 char member)
      | numeral isRun _ _ _ =>
          rw [← isRun] at member
          exact not_isBlank_of not_isNumeralLetter_of_isDelimiter (List.mem_takeWhile_imp member)

/-- What ends in a blank still does when something is taken off its front. -/
theorem all_getLast?_of_append
    {holds : Char → Bool} {initial rest : List Char}
    (ends : (initial ++ rest).getLast?.all holds = true) : rest.getLast?.all holds = true := by
  by_cases empty : rest = []
  · rw [empty]
    rfl
  · rwa [List.getLast?_append_of_ne_nil initial empty] at ends

/-- A spelling that a blank stands before and a delimiter behind is a token of the text. -/
theorem Scans.mem_of_spelling
    (usable : table.Usable) (member : entry ∈ table.entries) {read chars before : List Char}
    {tokens : List Token} (scans : Scans table path read chars (.ok tokens))
    (isText : chars = before ++ (entry.spelling.toList ++ behind))
    (begins : before.getLast?.all isBlank = true) (delimits : Delimits behind) :
    atPlace (.after (read ++ before)) (.keyword entry.keyword) entry.spelling ∈ tokens := by
  obtain ⟨nonempty, letters⟩ := usable.spelled entry member
  obtain ⟨first, tail, isSpelling⟩ := List.exists_cons_of_ne_nil nonempty
  rw [isSpelling] at isText letters
  induction scans using Scans.induction_ok generalizing before with
  | done =>
      rw [eq_comm, List.append_eq_nil_iff] at isText
      cases isText.2
  | blank read char rest tokens blank _ inductionHypothesis =>
      cases before with
      | nil =>
          obtain ⟨rfl, _⟩ := List.cons.inj isText
          rw [not_isBlank_of not_isLetter_of_isDelimiter (letters char (.head _))] at blank
          cases blank
      | cons next before =>
          obtain ⟨rfl, isRest⟩ := List.cons.inj isText
          have ends : before.getLast?.all isBlank = true :=
            all_getLast?_of_append (List.singleton_append ▸ begins)
          have isIn := inductionHypothesis ends isRest
          rwa [List.append_assoc, List.singleton_append] at isIn
  | word read start tail' rest symbol tokens taken _ inductionHypothesis =>
      rcases List.append_eq_append_iff.mp isText with
        ⟨before', rfl, isRest⟩ | ⟨within, isWord, isRest⟩
      · -- The word ends before the spelling.
        have isIn := inductionHypothesis (all_getLast?_of_append begins) isRest
        rw [List.append_assoc] at isIn
        exact .tail _ isIn
      · cases before with
        | nil =>
            rw [List.nil_append, List.cons_append, List.cons_append] at isText
            obtain ⟨rfl, sameText⟩ := List.cons.inj isText
            rw [sameText, pieceAt_spelling usable member isSpelling delimits] at taken
            split at taken
            · cases taken
              rw [← isSpelling, String.ofList_toList, List.append_nil]
              exact .head _
            · cases taken
        | cons next before =>
            -- The last character before the spelling is a blank, and no word has one.
            have isLast := List.getLast_mem (List.cons_ne_nil next before)
            have blank : isBlank ((next :: before).getLast (List.cons_ne_nil next before)) = true :=
              by rwa [List.getLast?_eq_some_getLast (List.cons_ne_nil next before)] at begins
            have stands := stands_pieceAt table start (tail' ++ rest)
            rw [taken, isWord] at stands
            rw [stands.not_isBlank usable.spelled _ (List.mem_append_left within isLast)] at blank
            cases blank

private theorem delimits_of_blank
    {behind : List Char} (blank : behind.head?.all isBlank = true) : Delimits behind := by
  cases behind with
  | nil => rfl
  | cons char rest => exact Bool.or_eq_true_iff.mpr (.inl blank)

/-- A spelling by itself is scanned to its keyword exactly if it begins with a capital from `A` to
`Z`. In a text that is scanned to tokens it is one of them wherever it stands between blanks. -/
theorem scan_spelling_iff
    {origin : Keyword.Source} (keyed : origin.Keyed) (loaded : origin.load = .ok table)
    (member : entry ∈ table.entries) (path : Option String) :
    (scan table entry.spelling path =
        .ok [⟨.keyword entry.keyword, entry.spelling, 1, 0⟩,
          ⟨.endOfText, "", 1, entry.spelling.length⟩] ↔
      entry.spelling.toList.head?.any Char.isUpper = true) ∧
    ∀ source tokens before behind, scan table source path = .ok tokens →
      source.toList = before ++ (entry.spelling.toList ++ behind) →
        before.getLast?.all isBlank = true → behind.head?.all isBlank = true →
          atPlace (.after before) (.keyword entry.keyword) entry.spelling ∈ tokens := by
  have usable := Keyword.usable_of_load keyed loaded
  constructor
  · obtain ⟨first, tail, isText⟩ := List.exists_cons_of_ne_nil (usable.spelled entry member).1
    rw [scan_spelling usable member isText, isText, List.head?_cons, Option.any_some]
    by_cases isUpper : first.isUpper = true
    · simp [isUpper]
    · simp [isUpper]
  · intro source tokens before behind scanned isText begins blank
    have scans := scans_scan usable.spelled source path
    rw [scanned] at scans
    exact scans.mem_of_spelling usable member isText begins (delimits_of_blank blank)

theorem scan_spelling_iff_accented :
    Keyword.Source.Keyed (.text Keyword.accentedText) ∧
      (Keyword.Source.text Keyword.accentedText).load = .ok .accented ∧
        ⟨"Munus", .define⟩ ∈ Keyword.Table.accented.entries ∧
          scan .accented "Munus" none =
            .ok [⟨.keyword .define, "Munus", 1, 0⟩, ⟨.endOfText, "", 1, 5⟩] ∧
            ∀ tokens, scan .accented "Grafo\tXIV\nMunus\r\n" none = .ok tokens →
              ⟨.keyword .define, "Munus", 2, 0⟩ ∈ tokens := by
  have keyed : Keyword.Source.Keyed (.text Keyword.accentedText) := trivial
  have member : ⟨"Munus", .define⟩ ∈ Keyword.Table.accented.entries := by decide
  obtain ⟨itself, between⟩ := scan_spelling_iff keyed Keyword.load_accentedText member none
  refine ⟨keyed, Keyword.load_accentedText, member, itself.mpr (by decide), ?_⟩
  intro tokens scanned
  exact between _ tokens "Grafo\tXIV\n".toList "\r\n".toList scanned (by decide) (by decide)
    (by decide)

/-- A spelling that begins with another capital is not scanned to its keyword, though the table is
loaded. -/
theorem not_scan_spelling_accented :
    ¬ ∀ (origin : Keyword.Source) (table : Keyword.Table) (entry : Keyword.Entry),
      origin.Keyed → origin.load = .ok table → entry ∈ table.entries →
        scan table entry.spelling none =
          .ok [⟨.keyword entry.keyword, entry.spelling, 1, 0⟩,
            ⟨.endOfText, "", 1, entry.spelling.length⟩] := by
  intro usable
  have scanned := usable (.text Keyword.accentedText) .accented ⟨"Ét", .declare⟩ trivial
    Keyword.load_accentedText (by decide)
  have failed : scan .accented "Ét" none = .error ⟨.unexpectedCharacter 'É', 1, 0, none⟩ := by
    decide +kernel
  rw [failed] at scanned
  cases scanned

end Token

end RomanScript
