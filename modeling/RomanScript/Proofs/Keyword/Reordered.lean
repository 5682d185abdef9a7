import RomanScript.Proofs.Keyword.Usable

/-!
# Tables in another order

The spellings of a table are distinct, so of those that fit at a place only one is the longest. A
text is therefore scanned alike whatever the order in which a table lists its entries.
-/

namespace RomanScript

namespace Keyword

variable {entries entries' : List Entry} {chars : List Char}

/-- Spellings that begin the same characters are the same if they are equally long. -/
theorem Entry.Fits.spelling_eq
    {entry other : Entry} (fits : entry.Fits chars) (fits' : other.Fits chars)
    (atMost : entry.spelling.length ≤ other.spelling.length)
    (atLeast : other.spelling.length ≤ entry.spelling.length) :
    entry.spelling = other.spelling := by
  have within : entry.spelling.toList <+: other.spelling.toList := by
    apply List.prefix_of_prefix_length_le fits fits'
    rwa [String.length_toList, String.length_toList]
  apply String.toList_inj.mp
  apply within.eq_of_length_le
  rwa [String.length_toList, String.length_toList]

/-- The choice among distinct spellings does not depend on their order. -/
theorem longestAt_perm
    (distinct : (entries.map Entry.spelling).Nodup) (reordered : entries.Perm entries')
    (chars : List Char) :
    Table.longestAt ⟨entries⟩ chars = Table.longestAt ⟨entries'⟩ chars := by
  cases chosen : Table.longestAt ⟨entries⟩ chars with
  | none =>
      cases chosen' : Table.longestAt ⟨entries'⟩ chars with
      | none => rfl
      | some best' =>
          obtain ⟨member', fits'⟩ := longestAt_fits chosen'
          obtain ⟨best, found, _⟩ := length_le_longestAt (reordered.mem_iff.mpr member') fits'
          rw [chosen] at found
          cases found
  | some best =>
      obtain ⟨member, fits⟩ := longestAt_fits chosen
      obtain ⟨best', chosen', atMost⟩ := length_le_longestAt (reordered.mem_iff.mp member) fits
      obtain ⟨member', fits'⟩ := longestAt_fits chosen'
      have isEntry : best' ∈ entries := reordered.mem_iff.mpr member'
      obtain ⟨other, found, atLeast⟩ := length_le_longestAt isEntry fits'
      rw [chosen, Option.some.injEq] at found
      subst found
      have same : best = best' :=
        List.inj_on_of_nodup_map distinct member isEntry (fits.spelling_eq fits' atMost atLeast)
      rw [chosen', same]

end Keyword

namespace Token

section Choice

variable {table table' : Keyword.Table}
    (same : ∀ chars, table.longestAt chars = table'.longestAt chars)

include same

/-- A table matters to a piece only by the entry that it chooses. -/
theorem pieceAt_of_longestAt (first : Char) (rest : List Char) :
    pieceAt table first rest = pieceAt table' first rest := by
  simp only [pieceAt, capitalPiece, same]

private theorem scanFrom_of_longestAt
    (path : Option String) (skip : Nat) (place : Place) (chars : List Char) :
    scanFrom table path skip place chars = scanFrom table' path skip place chars := by
  induction chars generalizing skip place with
  | nil => simp only [scanFrom]
  | cons char rest inductionHypothesis =>
      cases skip with
      | zero => simp only [scanFrom, pieceAt_of_longestAt same, inductionHypothesis]
      | succ skip => simp only [scanFrom, inductionHypothesis]

end Choice

/-- With its entries in any other order, a table that was loaded gives the same tokens of every text,
or the same diagnostic. -/
theorem scan_reordered
    {origin : Keyword.Source} (keyed : origin.Keyed) {table table' : Keyword.Table}
    (loaded : origin.load = .ok table) (reordered : table.entries.Perm table'.entries)
    (source : String) (path : Option String) :
    scan table source path = scan table' source path := by
  have distinct := (Keyword.usable_of_load keyed loaded).distinct
  apply scanFrom_of_longestAt
  exact Keyword.longestAt_perm distinct reordered

/-- Spellings of numeral letters, of which some begin others. -/
def overlappingText : String :=
  "keywords: \x7bM: AS, MM: MUNUS, Mo: GRAFO, MMo: ANAGNOSI, I: SINON\x7d\n"

def overlapping : Keyword.Table where
  entries := [⟨"M", .declare⟩, ⟨"MM", .define⟩, ⟨"Mo", .output⟩, ⟨"MMo", .input⟩, ⟨"I", .choose⟩]

def overlappingReversed : Keyword.Table where
  entries := overlapping.entries.reverse

theorem scan_reordered_overlapping :
    Keyword.Source.Keyed (.text overlappingText) ∧
      (Keyword.Source.text overlappingText).load = .ok overlapping ∧
        overlapping.entries.Perm overlappingReversed.entries ∧
          scan overlapping "MMo MM MoMMM M" none =
            .ok [⟨.keyword .input, "MMo", 1, 0⟩, ⟨.keyword .define, "MM", 1, 4⟩,
              ⟨.keyword .output, "Mo", 1, 7⟩, ⟨.numeral, "MMM", 1, 9⟩,
              ⟨.keyword .declare, "M", 1, 13⟩, ⟨.endOfText, "", 1, 14⟩] ∧
            scan overlapping "MMo MM MoMMM M" none =
              scan overlappingReversed "MMo MM MoMMM M" none := by
  have keyed : Keyword.Source.Keyed (.text overlappingText) := trivial
  have loaded : (Keyword.Source.text overlappingText).load = .ok overlapping :=
    Keyword.load_of_toOption (by decide +kernel)
  have reordered : overlapping.entries.Perm overlappingReversed.entries :=
    (List.reverse_perm _).symm
  exact ⟨keyed, loaded, reordered, by decide +kernel,
    scan_reordered keyed loaded reordered _ none⟩

end Token

end RomanScript
