import RomanScript.Proofs.Keyword.Accepted

/-!
# Spellings of a table

Every table that is loaded spells its keywords by letters. Of the entries that fit at a place the
longest is chosen, and the choice stands when fewer of the others fit.
-/

namespace RomanScript.Keyword

def Entry.Spelled (entry : Entry) : Prop :=
  entry.spelling.toList ≠ [] ∧ ∀ char ∈ entry.spelling.toList, Text.isLetter char = true

def Table.Spelled (table : Table) : Prop :=
  ∀ entry ∈ table.entries, entry.Spelled

theorem spelled_of_isSpelling
    {text : String} (isSpelling : isSpelling text = true) (keyword : Keyword) :
    Entry.Spelled ⟨text, keyword⟩ := by
  simp only [Keyword.isSpelling, Bool.and_eq_true, List.all_eq_true] at isSpelling
  obtain ⟨begins, letters⟩ := isSpelling
  refine ⟨?_, letters⟩
  intro empty
  dsimp only at empty
  simp [empty] at begins

private theorem spelled_of_loadDocument
    {document : Document} {table : Table} (loaded : loadDocument document = .ok table) :
    table.Spelled :=
  fun entry member => spelled_of_isSpelling (isSpelling_of_load_document loaded member) entry.keyword

theorem spelled_usual : Table.usual.Spelled := by
  have areSpellings : Table.usual.entries.all (fun entry => isSpelling entry.spelling) = true := by
    decide +kernel
  intro entry member
  exact spelled_of_isSpelling (List.all_eq_true.mp areSpellings entry member) entry.keyword

/-- Whatever the source, a table that is loaded is spelled by letters. -/
theorem spelled_of_load
    {source : Source} {table : Table} (loaded : source.load = .ok table) : table.Spelled := by
  cases source with
  | usual =>
      cases loaded
      exact spelled_usual
  | document given => exact spelled_of_loadDocument loaded
  | text content =>
      unfold Source.load at loaded
      dsimp only at loaded
      split at loaded
      · exact spelled_of_loadDocument loaded
      · cases loaded

/-- The spelling of an entry stands at the beginning of some characters. -/
def Entry.Fits (entry : Entry) (chars : List Char) : Prop :=
  entry.spelling.toList <+: chars

variable {entries : List Entry} {chars : List Char} {best : Entry}

/-- The last entry is chosen if it fits and is longer than the choice among the others. -/
theorem longestAt_concat (entries : List Entry) (last : Entry) (chars : List Char) :
    Table.longestAt ⟨entries ++ [last]⟩ chars =
      if last.spelling.toList.isPrefixOf chars &&
          (Table.longestAt ⟨entries⟩ chars).all
            (fun chosen => chosen.spelling.length < last.spelling.length) then
        some last
      else Table.longestAt ⟨entries⟩ chars := by
  simp [Table.longestAt, List.foldl_append]

theorem longestAt_fits (chosen : Table.longestAt ⟨entries⟩ chars = some best) :
    best ∈ entries ∧ best.Fits chars := by
  induction entries using List.reverseRecOn with
  | nil => cases chosen
  | append_singleton entries last inductionHypothesis =>
      rw [longestAt_concat] at chosen
      split at chosen
      · rename_i isChosen
        cases chosen
        rw [Bool.and_eq_true, List.isPrefixOf_iff_prefix] at isChosen
        exact ⟨by simp, isChosen.1⟩
      · obtain ⟨member, fits⟩ := inductionHypothesis chosen
        exact ⟨List.mem_append_left _ member, fits⟩

/-- What fits is not longer than what is chosen. -/
theorem length_le_longestAt
    {entry : Entry} (member : entry ∈ entries) (fits : entry.Fits chars) :
    ∃ best, Table.longestAt ⟨entries⟩ chars = some best ∧
      entry.spelling.length ≤ best.spelling.length := by
  induction entries using List.reverseRecOn with
  | nil => cases member
  | append_singleton entries last inductionHypothesis =>
      rw [longestAt_concat]
      split
      · rename_i isChosen
        refine ⟨last, rfl, ?_⟩
        rcases List.mem_append.mp member with earlier | latest
        · obtain ⟨best, chosen, le⟩ := inductionHypothesis earlier
          simp only [chosen, Option.all_some, Bool.and_eq_true, decide_eq_true_eq] at isChosen
          omega
        · cases List.mem_singleton.mp latest
          exact Nat.le_refl _
      · rename_i notChosen
        rcases List.mem_append.mp member with earlier | latest
        · exact inductionHypothesis earlier
        · cases List.mem_singleton.mp latest
          rw [List.isPrefixOf_iff_prefix.mpr fits, Bool.true_and] at notChosen
          cases chosen : Table.longestAt ⟨entries⟩ chars with
          | none => simp [chosen] at notChosen
          | some best =>
              simp only [chosen, Option.all_some, decide_eq_true_eq] at notChosen
              exact ⟨best, rfl, by omega⟩

/-- The choice stands before other characters if it fits there and nothing fits anew. -/
theorem longestAt_of_narrower
    {chars' : List Char} (chosen : Table.longestAt ⟨entries⟩ chars = some best)
    (fits : best.Fits chars')
    (narrower : ∀ entry ∈ entries, entry.Fits chars' → entry.Fits chars) :
    Table.longestAt ⟨entries⟩ chars' = some best := by
  induction entries using List.reverseRecOn with
  | nil => cases chosen
  | append_singleton entries last inductionHypothesis =>
      have narrower' : ∀ entry ∈ entries, entry.Fits chars' → entry.Fits chars :=
        fun entry member => narrower entry (List.mem_append_left _ member)
      rw [longestAt_concat] at chosen ⊢
      split at chosen
      · rename_i isChosen
        cases chosen
        rw [Bool.and_eq_true] at isChosen
        rw [List.isPrefixOf_iff_prefix.mpr fits, Bool.true_and, if_pos]
        -- What was chosen among the others there is not longer than what was chosen here.
        cases chosen' : Table.longestAt ⟨entries⟩ chars' with
        | none => rfl
        | some other =>
            obtain ⟨member, fits'⟩ := longestAt_fits chosen'
            obtain ⟨earlier, chosen, le⟩ :=
              length_le_longestAt member (narrower' other member fits')
            simp only [chosen, Option.all_some, decide_eq_true_eq] at isChosen ⊢
            omega
      · rename_i notChosen
        rw [inductionHypothesis chosen narrower', if_neg]
        rw [Bool.and_eq_true, chosen] at notChosen
        rw [Bool.and_eq_true, List.isPrefixOf_iff_prefix]
        intro isChosen
        refine notChosen ⟨List.isPrefixOf_iff_prefix.mpr ?_, isChosen.2⟩
        exact narrower last (by simp) isChosen.1

/-- The choice depends only on which entries fit. -/
theorem longestAt_congr
    {chars' : List Char} (same : ∀ entry ∈ entries, (entry.Fits chars ↔ entry.Fits chars')) :
    Table.longestAt ⟨entries⟩ chars = Table.longestAt ⟨entries⟩ chars' := by
  induction entries using List.reverseRecOn with
  | nil => rfl
  | append_singleton entries last inductionHypothesis =>
      have others := inductionHypothesis fun entry member =>
        same entry (List.mem_append_left _ member)
      have fits : last.spelling.toList.isPrefixOf chars = last.spelling.toList.isPrefixOf chars' :=
        by
          rw [Bool.eq_iff_iff, List.isPrefixOf_iff_prefix, List.isPrefixOf_iff_prefix]
          exact same last (by simp)
      rw [longestAt_concat, longestAt_concat, others, fits]

end RomanScript.Keyword
