import Mathlib.Data.List.Pairwise
import RomanScript.Document.Meaning

/-!
# Keys of mappings

In a document that is made from a text no mapping has two entries under one key, on whatever level
it stands.
-/

namespace RomanScript.Document

/-- No two of the entries have the same key. -/
def KeysApart (entries : List (Document × Document)) : Prop :=
  (entries.map Prod.fst).Pairwise fun earlier later => earlier.sameKey later = false

/-- The keys of all mappings in a document are distinct, and so are the elements of all sets. -/
inductive Keyed : Document → Prop
  | simple {document : Document} : document.isKey = true → Keyed document
  | sequence {items : List Document} :
      (∀ item ∈ items, Keyed item) → Keyed (.sequence items)
  | pairs {entries : List (Document × Document)} :
      (∀ entry ∈ entries, Keyed entry.1) → (∀ entry ∈ entries, Keyed entry.2) →
      Keyed (.pairs entries)
  | set {entries : List (Document × Document)} :
      KeysApart entries → Keyed (.set (entries.map Prod.fst))
  | mapping {entries : List (Document × Document)} :
      KeysApart entries → (∀ entry ∈ entries, Keyed entry.2) → Keyed (.mapping entries)

private theorem keys_put (key value : Document) (entries : List (Document × Document)) :
    (put key value entries).map Prod.fst =
      if entries.any (·.1.sameKey key) then entries.map Prod.fst
      else entries.map Prod.fst ++ [key] := by
  induction entries with
  | nil => rfl
  | cons entry rest inductionHypothesis =>
      rw [put]
      by_cases same : entry.1.sameKey key = true
      · simp [same]
      · simp only [Bool.not_eq_true] at same
        simp only [same, Bool.false_eq_true, if_false, List.map_cons, List.any_cons,
          Bool.false_or, inductionHypothesis]
        split <;> rfl

private theorem keysApart_put
    {entries : List (Document × Document)} (apart : KeysApart entries) (key value : Document) :
    KeysApart (put key value entries) := by
  rw [KeysApart, keys_put]
  split
  · exact apart
  · rename_i isNew
    refine List.pairwise_append.mpr ⟨apart, List.pairwise_singleton _ _, ?_⟩
    intro other isKey new isNewKey
    obtain ⟨entry, member, rfl⟩ := List.mem_map.mp isKey
    rw [List.mem_singleton.mp isNewKey]
    exact Bool.eq_false_iff.mpr fun same => isNew (List.any_eq_true.mpr ⟨entry, member, same⟩)

private theorem mem_put
    {key value : Document} {entries : List (Document × Document)} {entry : Document × Document}
    (member : entry ∈ put key value entries) : entry.2 = value ∨ entry ∈ entries := by
  induction entries with
  | nil =>
      rw [List.mem_singleton.mp member]
      exact .inl rfl
  | cons first rest inductionHypothesis =>
      rw [put] at member
      split at member
      · rcases List.mem_cons.mp member with rfl | others
        · exact .inl rfl
        · exact .inr (.tail _ others)
      · rcases List.mem_cons.mp member with rfl | others
        · exact .inr (.head _)
        · exact (inductionHypothesis others).imp id (.tail _)

private theorem keysApart_foldl_put
    {entries found : List (Document × Document)} (apart : KeysApart found)
    (values : ∀ entry ∈ found, entry.2.Keyed) (keyed : ∀ entry ∈ entries, entry.2.Keyed) :
    KeysApart (entries.foldl (fun found (key, value) => put key value found) found) ∧
      ∀ entry ∈ entries.foldl (fun found (key, value) => put key value found) found,
        entry.2.Keyed := by
  induction entries generalizing found with
  | nil => exact ⟨apart, values⟩
  | cons entry rest inductionHypothesis =>
      obtain ⟨value, others⟩ := List.forall_mem_cons.mp keyed
      refine inductionHypothesis (keysApart_put apart _ _) (fun other member => ?_) others
      rcases mem_put member with isValue | earlier
      · exact isValue ▸ value
      · exact values other earlier

private theorem keysApart_of_distinct?
    {entries found : List (Document × Document)} (distinct : distinct? entries = some found)
    (keyed : ∀ entry ∈ entries, entry.2.Keyed) :
    KeysApart found ∧ ∀ entry ∈ found, entry.2.Keyed := by
  unfold distinct? at distinct
  split at distinct
  · cases distinct
    exact keysApart_foldl_put .nil (List.forall_mem_nil _) keyed
  · cases distinct

private theorem Keyed.values
    {entries : List (Document × Document)} (keyed : (Document.mapping entries).Keyed) :
    ∀ entry ∈ entries, entry.2.Keyed := by
  cases keyed with
  | simple isKey => cases isKey
  | mapping _ values => exact values

private theorem keyed_ofCodes (codes : List Nat) : (ofCodes codes).Keyed := by
  unfold ofCodes
  split <;> exact .simple rfl

/-- A plain scalar is understood as something simple. -/
theorem isKey_of_ofPlain?
    {text : String} {document : Document} (meaning : ofPlain? text = some document) :
    document.isKey = true := by
  unfold ofPlain? at meaning
  split at meaning
  · cases meaning
  · split at meaning
    · cases meaning
      rfl
    · split at meaning
      · cases meaning
        rfl
      · cases meaning
        rfl
      · cases meaning
        rfl
      · split at meaning
        · cases meaning
          rfl
        · cases meaning
      · cases meaning
        rfl

private theorem keyed_of_map
    {α : Type} {scalar : α → Document} (simple : ∀ value, (scalar value).isKey = true)
    {value? : Option α} {document : Document} (meaning : value?.map scalar = some document) :
    document.Keyed := by
  obtain ⟨value, _, rfl⟩ := Option.map_eq_some_iff.mp meaning
  exact .simple (simple value)

private theorem keyed_of_ofTagged?
    {tag : String} {codes : List Nat} {document : Document}
    (meaning : ofTagged? tag codes = some document) : document.Keyed := by
  unfold ofTagged? at meaning
  split at meaning
  · cases meaning
    exact keyed_ofCodes codes
  · split at meaning
    · cases meaning
      exact .simple rfl
    · split at meaning
      · cases meaning
      · dsimp only at meaning
        split at meaning
        · exact keyed_of_map (fun _ => rfl) meaning
        · split at meaning
          · exact keyed_of_map (fun _ => rfl) meaning
          · split at meaning
            · split at meaning
              · cases meaning
                exact .simple rfl
              · cases meaning
                exact .simple rfl
              · cases meaning
            · split at meaning
              · exact keyed_of_map (fun _ => rfl) meaning
              · split at meaning
                · exact keyed_of_map (fun _ => rfl) meaning
                · cases meaning

mutual

theorem keyed_of_ofOutline?
    {document : Document} :
    (outline : Outline) → ofOutline? outline = some document → document.Keyed
  | .plain text, meaning => by
    rw [ofOutline?] at meaning
    exact .simple (isKey_of_ofPlain? meaning)
  | .quoted codes, meaning => by
    cases meaning
    exact keyed_ofCodes codes
  | .tagged tag codes, meaning => by
    rw [ofOutline?] at meaning
    exact keyed_of_ofTagged? meaning
  | .sequence tag items, meaning => by
    rw [ofOutline?] at meaning
    split at meaning
    · obtain ⟨documents, areItems, rfl⟩ := Option.map_eq_some_iff.mp meaning
      exact .sequence (keyed_of_ofItems? items areItems)
    · split at meaning
      · obtain ⟨entries, arePairs, rfl⟩ := Option.map_eq_some_iff.mp meaning
        have keyed := keyed_of_ofPairs? items arePairs
        exact .pairs (fun entry member => (keyed entry member).1)
          fun entry member => (keyed entry member).2
      · cases meaning
  | .mapping tag entries, meaning => by
    rw [ofOutline?] at meaning
    split at meaning
    · obtain ⟨⟨merged, own⟩, areParts, meaning⟩ := Option.bind_eq_some_iff.mp meaning
      obtain ⟨found, distinct, rfl⟩ := Option.map_eq_some_iff.mp meaning
      obtain ⟨apart, values⟩ := keysApart_of_distinct? distinct (keyed_of_ofParts? entries areParts)
      exact .mapping apart values
    · split at meaning
      · obtain ⟨⟨merged, own⟩, areParts, meaning⟩ := Option.bind_eq_some_iff.mp meaning
        obtain ⟨found, distinct, rfl⟩ := Option.map_eq_some_iff.mp meaning
        exact .set (keysApart_of_distinct? distinct (keyed_of_ofParts? entries areParts)).1
      · obtain ⟨tag, _, meaning⟩ := Option.bind_eq_some_iff.mp meaning
        obtain ⟨codes, _, tagged⟩ := Option.bind_eq_some_iff.mp meaning
        exact keyed_of_ofTagged? tagged

theorem keyed_of_ofItems?
    {documents : List Document} : (items : List Outline) → ofItems? items = some documents →
      ∀ document ∈ documents, document.Keyed
  | [], meaning => by
    cases meaning
    exact List.forall_mem_nil _
  | item :: rest, meaning => by
    rw [ofItems?] at meaning
    obtain ⟨first, isFirst, meaning⟩ := Option.bind_eq_some_iff.mp meaning
    obtain ⟨others, areOthers, meaning⟩ := Option.bind_eq_some_iff.mp meaning
    cases meaning
    exact List.forall_mem_cons.mpr
      ⟨keyed_of_ofOutline? item isFirst, keyed_of_ofItems? rest areOthers⟩

theorem keyed_of_ofPair?
    {found : Document × Document} : (outline : Outline) → ofPair? outline = some found →
      found.1.Keyed ∧ found.2.Keyed
  | .mapping _ [(key, value)], meaning => by
    rw [ofPair?] at meaning
    obtain ⟨first, isFirst, meaning⟩ := Option.bind_eq_some_iff.mp meaning
    obtain ⟨second, isSecond, meaning⟩ := Option.bind_eq_some_iff.mp meaning
    cases meaning
    exact ⟨keyed_of_ofOutline? key isFirst, keyed_of_ofOutline? value isSecond⟩
  | .plain _, meaning | .quoted _, meaning | .tagged _ _, meaning | .sequence _ _, meaning
  | .mapping _ [], meaning | .mapping _ (_ :: _ :: _), meaning => by
    cases meaning

theorem keyed_of_ofPairs?
    {found : List (Document × Document)} : (items : List Outline) → ofPairs? items = some found →
      ∀ entry ∈ found, entry.1.Keyed ∧ entry.2.Keyed
  | [], meaning => by
    cases meaning
    exact List.forall_mem_nil _
  | item :: rest, meaning => by
    rw [ofPairs?] at meaning
    obtain ⟨first, isFirst, meaning⟩ := Option.bind_eq_some_iff.mp meaning
    obtain ⟨others, areOthers, meaning⟩ := Option.bind_eq_some_iff.mp meaning
    cases meaning
    exact List.forall_mem_cons.mpr
      ⟨keyed_of_ofPair? item isFirst, keyed_of_ofPairs? rest areOthers⟩

theorem keyed_of_ofParts?
    {merged own : List (Document × Document)} : (entries : List (Outline × Outline)) →
      ofParts? entries = some (merged, own) → ∀ entry ∈ merged ++ own, entry.2.Keyed
  | [], meaning => by
    cases meaning
    exact List.forall_mem_nil _
  | (key, value) :: rest, meaning => by
    rw [ofParts?] at meaning
    split at meaning
    · obtain ⟨entries, areEntries, meaning⟩ := Option.bind_eq_some_iff.mp meaning
      obtain ⟨⟨merged', own'⟩, areRest, meaning⟩ := Option.bind_eq_some_iff.mp meaning
      cases meaning
      intro entry member
      rw [List.append_assoc] at member
      rcases List.mem_append.mp member with inMerged | elsewhere
      · exact keyed_of_merged? value areEntries entry inMerged
      · exact keyed_of_ofParts? rest areRest entry elsewhere
    · obtain ⟨key', _, meaning⟩ := Option.bind_eq_some_iff.mp meaning
      obtain ⟨meant, isValue, meaning⟩ := Option.bind_eq_some_iff.mp meaning
      obtain ⟨⟨merged', own'⟩, areRest, meaning⟩ := Option.bind_eq_some_iff.mp meaning
      cases meaning
      have others := keyed_of_ofParts? rest areRest
      intro entry member
      rcases List.mem_append.mp member with inMerged | inOwn
      · exact others entry (List.mem_append_left _ inMerged)
      · rcases List.mem_cons.mp inOwn with rfl | inRest
        · exact keyed_of_ofOutline? value isValue
        · exact others entry (List.mem_append_right _ inRest)

theorem keyed_of_merged?
    {found : List (Document × Document)} : (outline : Outline) → merged? outline = some found →
      ∀ entry ∈ found, entry.2.Keyed
  | .mapping _ entries, meaning => by
    rw [merged?] at meaning
    obtain ⟨⟨merged, own⟩, areParts, rfl⟩ := Option.map_eq_some_iff.mp meaning
    exact keyed_of_ofParts? entries areParts
  | .sequence _ items, meaning => by
    rw [merged?] at meaning
    exact keyed_of_mergedItems? items meaning
  | .plain _, meaning | .quoted _, meaning | .tagged _ _, meaning => by
    cases meaning

theorem keyed_of_mergedItems?
    {found : List (Document × Document)} : (items : List Outline) →
      mergedItems? items = some found → ∀ entry ∈ found, entry.2.Keyed
  | [], meaning => by
    cases meaning
    exact List.forall_mem_nil _
  | .mapping _ entries :: rest, meaning => by
    rw [mergedItems?] at meaning
    obtain ⟨⟨merged, own⟩, areParts, meaning⟩ := Option.bind_eq_some_iff.mp meaning
    obtain ⟨others, areOthers, meaning⟩ := Option.bind_eq_some_iff.mp meaning
    cases meaning
    intro entry member
    rcases List.mem_append.mp member with inOthers | inFirst
    · exact keyed_of_mergedItems? rest areOthers entry inOthers
    · exact keyed_of_ofParts? entries areParts entry inFirst
  | .plain _ :: _, meaning | .quoted _ :: _, meaning | .tagged _ _ :: _, meaning
  | .sequence _ _ :: _, meaning => by
    cases meaning

end

theorem keyed_of_ofText?
    {text : String} {document : Document} (meaning : ofText? text = some document) :
    document.Keyed := by
  obtain ⟨marks, _, meaning⟩ := Option.bind_eq_some_iff.mp meaning
  obtain ⟨outline?, _, meaning⟩ := Option.bind_eq_some_iff.mp meaning
  split at meaning
  · exact keyed_of_ofOutline? _ meaning
  · cases meaning
    exact .simple rfl

/-- What a keyed document has under a key is keyed itself. -/
theorem Keyed.of_entry?
    {key : String} {document value : Document} (keyed : document.Keyed)
    (found : document.entry? key = some value) : value.Keyed := by
  unfold entry? at found
  split at found
  · obtain ⟨entry, isFound, rfl⟩ := Option.map_eq_some_iff.mp found
    exact keyed.values entry (List.mem_of_find?_eq_some isFound)
  · cases found

end RomanScript.Document
