import Mathlib.Data.List.Induction
import Mathlib.Data.List.Nodup
import Mathlib.Data.List.Perm.Basic
import RomanScript.Keyword.Loading

/-!
# Documents that give a table

A document gives a table exactly if its entry `keywords` is a mapping that spells every keyword
once. The table then has the entries of the mapping in their order. Of the entries that offend the
first is reported, and keywords that are not spelled only if no entry offends.
-/

namespace RomanScript.Keyword

def IsSpelling (text : String) : Prop :=
  ∃ first rest, text.toList = first :: rest ∧ Text.isUppercase first = true ∧
    ∀ char ∈ first :: rest, Text.isLetter char = true

def Entry.toPair (entry : Entry) : Document × Document :=
  (.string entry.spelling, .string entry.keyword.name)

/-- Whether an entry of a document names a keyword. -/
def isNamedBy (keyword : Keyword) : Document × Document → Bool
  | (_, .string text) => text == keyword.name
  | _ => false

/-- What is wrong with an entry that stands behind others. -/
inductive Offends (before : List (Document × Document)) : Document × Document → Defect → Prop
  | spelling {key : Document} (value : Document) :
      (∀ text, key = .string text → ¬ IsSpelling text) →
      Offends before (key, value) (.invalidSpelling key)
  | unknown {text : String} {value : Document} :
      IsSpelling text → (∀ keyword : Keyword, value ≠ .string keyword.name) →
      Offends before (.string text, value) (.unknownKeyword value text)
  | twice {text earlier : String} {keyword : Keyword} :
      IsSpelling text → (.string earlier, .string keyword.name) ∈ before →
      Offends before (.string text, .string keyword.name) (.spelledTwice keyword earlier text)

def Blameless (pairs : List (Document × Document)) : Prop :=
  ∀ before pair behind, pairs = before ++ pair :: behind → ∀ defect, ¬ Offends before pair defect

/-- The keys may spell keywords, and the values name every keyword once. -/
structure Bijective (pairs : List (Document × Document)) : Prop where
  keys : ∀ pair ∈ pairs, ∃ text, pair.1 = .string text ∧ IsSpelling text
  values : (pairs.map Prod.snd).Perm (all.map fun keyword => .string keyword.name)

/-- What keeps a document from giving a table. -/
inductive Faulty (document : Document) : Defect → Prop
  | noTable :
      (∀ pairs, document.entry? "keywords" = some (.mapping pairs) → pairs = []) →
      Faulty document .noTable
  | entry {before behind : List (Document × Document)} {pair : Document × Document}
      {defect : Defect} :
      document.entry? "keywords" = some (.mapping (before ++ pair :: behind)) →
      Blameless before → Offends before pair defect → Faulty document defect
  | missing {pairs : List (Document × Document)} {missing : List Keyword} :
      document.entry? "keywords" = some (.mapping pairs) → pairs ≠ [] → Blameless pairs →
      all.filter (fun keyword => !pairs.any (isNamedBy keyword)) = missing → missing ≠ [] →
      Faulty document (.notSpelled missing)

/-- Entries that spell different keywords, as they stand in a document. -/
structure Taken (pairs : List (Document × Document)) (entries : List Entry) : Prop where
  pairs_eq : entries.map Entry.toPair = pairs
  isSpelling : ∀ entry ∈ entries, IsSpelling entry.spelling
  distinct : (entries.map Entry.keyword).Nodup

variable {pairs before behind : List (Document × Document)} {pair : Document × Document}
    {found entries : List Entry} {entry : Entry} {keyword : Keyword} {defect : Defect}
    {document : Document} {table : Table}

private theorem isSpelling_iff (text : String) : isSpelling text = true ↔ IsSpelling text := by
  unfold isSpelling IsSpelling
  cases text.toList with
  | nil => simp
  | cons first rest => simp

private theorem name_injective : Function.Injective name := by
  intro keyword other
  cases keyword <;> cases other <;> simp [name]

private theorem mem_all (keyword : Keyword) : keyword ∈ all := by
  cases keyword <;> simp [all]

private theorem ofName?_eq_some_iff {text : String} : ofName? text = some keyword ↔ text = keyword.name := by
  constructor
  · intro isFound
    have isName := List.find?_some isFound
    exact (beq_iff_eq.mp isName).symm
  · rintro rfl
    cases keyword <;> rfl

private theorem Entry.toPair_injective : Function.Injective Entry.toPair := by
  intro entry other same
  have sameText := Document.string.inj (congrArg Prod.fst same)
  have sameName := Document.string.inj (congrArg Prod.snd same)
  cases entry
  cases other
  exact congrArg₂ Entry.mk sameText (name_injective sameName)

private theorem Taken.nil : Taken [] [] :=
  ⟨rfl, List.forall_mem_nil _, .nil⟩

private theorem Taken.append
    (taken : Taken before found) (isSpelling : IsSpelling entry.spelling)
    (isNew : entry.keyword ∉ found.map Entry.keyword) :
    Taken (before ++ [entry.toPair]) (found ++ [entry]) where
  pairs_eq := by simp [taken.pairs_eq]
  isSpelling := by
    intro other member
    rcases List.mem_append.mp member with earlier | latest
    · exact taken.isSpelling other earlier
    · rwa [List.mem_singleton.mp latest]
  distinct := by
    rw [List.map_append]
    apply taken.distinct.append (List.nodup_singleton _)
    exact List.disjoint_singleton.mpr isNew

/-- Entries that have been taken before some others. -/
theorem Taken.of_append (taken : Taken (before ++ behind) entries) :
    ∃ found added, entries = found ++ added ∧ Taken before found ∧
      added.map Entry.toPair = behind := by
  obtain ⟨found, added, rfl, isBefore, isBehind⟩ := List.map_eq_append_iff.mp taken.pairs_eq
  have distinct := taken.distinct
  rw [List.map_append] at distinct
  exact ⟨found, added, rfl,
    ⟨isBefore, fun other member => taken.isSpelling other (List.mem_append_left _ member),
      distinct.of_append_left⟩, isBehind⟩

/-- A keyword is spelled by an entry in front if it is the value of one there. -/
theorem Taken.mem_iff (taken : Taken before found) {earlier : String} :
    ⟨earlier, keyword⟩ ∈ found ↔ (Document.string earlier, .string keyword.name) ∈ before := by
  have isPair : (Document.string earlier, .string keyword.name) =
      Entry.toPair ⟨earlier, keyword⟩ :=
    rfl
  rw [← taken.pairs_eq, isPair, List.mem_map_of_injective Entry.toPair_injective]

/-- An entry that spells a keyword offends only if the keyword is spelled before. -/
theorem Offends.mem_keyword
    (offends : Offends before entry.toPair defect) (isSpelling : IsSpelling entry.spelling)
    (taken : Taken before found) : entry.keyword ∈ found.map Entry.keyword := by
  generalize isPair : entry.toPair = pair at offends
  cases offends with
  | spelling value notSpelling =>
      cases isPair
      exact absurd isSpelling (notSpelling _ rfl)
  | unknown _ notNamed =>
      cases isPair
      exact absurd rfl (notNamed entry.keyword)
  | twice _ isBefore =>
      have isNamed := Document.string.inj (congrArg Prod.snd isPair)
      rw [name_injective isNamed]
      exact List.mem_map_of_mem (taken.mem_iff.mpr isBefore)

/-- Of the entries that have been taken only one spells a keyword. -/
theorem Taken.find?_eq (taken : Taken before found) (member : entry ∈ found) :
    found.find? (·.keyword == entry.keyword) = some entry := by
  cases isFound : found.find? (·.keyword == entry.keyword) with
  | none =>
      have differs := List.find?_eq_none.mp isFound entry member
      simp at differs
  | some other =>
      have same : other.keyword = entry.keyword := by simpa using List.find?_some isFound
      rw [List.inj_on_of_nodup_map taken.distinct (List.mem_of_find?_eq_some isFound) member same]

/-- What has been taken does not offend. -/
theorem Taken.blameless (taken : Taken pairs entries) : Blameless pairs := by
  intro before pair behind isSplit defect offends
  subst isSplit
  obtain ⟨found, added, rfl, isFound, isBehind⟩ := taken.of_append
  obtain ⟨entry, others, rfl, rfl, _⟩ := List.map_eq_cons_iff.mp isBehind
  have isEarlier := offends.mem_keyword (taken.isSpelling entry (by simp)) isFound
  have distinct := taken.distinct
  rw [List.map_append, List.nodup_append] at distinct
  exact distinct.2.2 _ isEarlier _ (by simp) rfl

/-- The next entry is taken unless it offends. -/
theorem Taken.append_or_offends (taken : Taken before found) (pair : Document × Document) :
    (∃ entry, Taken (before ++ [pair]) (found ++ [entry])) ∨
      ∃ defect, Offends before pair defect := by
  obtain ⟨key, value⟩ := pair
  by_cases isKey : ∃ text, key = .string text ∧ IsSpelling text
  · obtain ⟨text, rfl, isSpelling⟩ := isKey
    by_cases isNamed : ∃ keyword : Keyword, value = .string keyword.name
    · obtain ⟨keyword, rfl⟩ := isNamed
      by_cases isEarlier : keyword ∈ found.map Entry.keyword
      · obtain ⟨earlier, member, rfl⟩ := List.mem_map.mp isEarlier
        exact .inr ⟨_, .twice isSpelling (taken.mem_iff.mp member)⟩
      · have isTaken : Taken (before ++ [Entry.toPair ⟨text, keyword⟩]) (found ++ [⟨text, keyword⟩]) :=
          taken.append isSpelling isEarlier
        exact .inl ⟨_, isTaken⟩
    · exact .inr ⟨_, .unknown isSpelling (not_exists.mp isNamed)⟩
  · exact .inr ⟨_, .spelling value fun text isText isSpelling => isKey ⟨text, isText, isSpelling⟩⟩

/-- Of some entries all are taken, or there is a first one that offends. -/
theorem exists_taken_or_offends (pairs : List (Document × Document)) :
    (∃ entries, Taken pairs entries) ∨
      ∃ before pair behind found defect, pairs = before ++ pair :: behind ∧
        Taken before found ∧ Offends before pair defect := by
  induction pairs using List.reverseRecOn with
  | nil => exact .inl ⟨[], .nil⟩
  | append_singleton front latest inductionHypothesis =>
      rcases inductionHypothesis with ⟨found, taken⟩ | isOffended
      · rcases taken.append_or_offends latest with ⟨entry, isTaken⟩ | ⟨defect, offends⟩
        · exact .inl ⟨_, isTaken⟩
        · exact .inr ⟨front, latest, [], found, defect, rfl, taken, offends⟩
      · obtain ⟨before, pair, behind, found, defect, rfl, taken, offends⟩ := isOffended
        exact .inr ⟨before, pair, behind ++ [latest], found, defect, by simp, taken, offends⟩

private theorem Blameless.exists_taken (blameless : Blameless pairs) : ∃ entries, Taken pairs entries := by
  rcases exists_taken_or_offends pairs with isTaken | isOffended
  · exact isTaken
  · obtain ⟨before, pair, behind, _, defect, isSplit, _, offends⟩ := isOffended
    exact absurd offends (blameless before pair behind isSplit defect)

private theorem spellingOf_string {text : String} (isSpelling : IsSpelling text) :
    spellingOf (.string text) = .ok text :=
  if_pos ((isSpelling_iff text).mpr isSpelling)

private theorem spellingOf_of_not {key : Document}
    (notSpelling : ∀ text, key = .string text → ¬ IsSpelling text) :
    spellingOf key = .error (.invalidSpelling key) := by
  cases key with
  | string text => exact if_neg (mt (isSpelling_iff text).mp (notSpelling text rfl))
  | _ => rfl

private theorem keywordOf_string (spelling : String) (keyword : Keyword) :
    keywordOf spelling (.string keyword.name) = .ok keyword := by
  rw [keywordOf, ofName?_eq_some_iff.mpr rfl]

private theorem keywordOf_of_not {value : Document} (spelling : String)
    (notNamed : ∀ keyword : Keyword, value ≠ .string keyword.name) :
    keywordOf spelling value = .error (.unknownKeyword value spelling) := by
  cases value with
  | string text =>
      have isNone : ofName? text = none := by
        rw [Option.eq_none_iff_forall_ne_some]
        intro keyword isFound
        exact notNamed keyword (congrArg _ (ofName?_eq_some_iff.mp isFound))
      rw [keywordOf, isNone]
  | _ => rfl

/-- An entry that is taken is added to those in front of it. -/
theorem entriesFrom_cons_of_taken
    (taken : Taken (before ++ [pair]) (found ++ [entry])) (rest : List (Document × Document)) :
    entriesFrom found (pair :: rest) = entriesFrom (found ++ [entry]) rest := by
  have isPair : entry.toPair = pair := by
    have pairsEq := taken.pairs_eq
    rw [List.map_append, List.map_singleton] at pairsEq
    exact (List.concat_inj.mp (by simpa using pairsEq)).2
  have isNew : found.find? (·.keyword == entry.keyword) = none := by
    have distinct := taken.distinct
    rw [List.map_append, List.nodup_append] at distinct
    rw [List.find?_eq_none]
    intro other member isSame
    exact distinct.2.2 _ (List.mem_map_of_mem member) _ (by simp) (beq_iff_eq.mp isSame)
  have isSpelling := taken.isSpelling entry (by simp)
  rw [← isPair]
  simp only [Entry.toPair, entriesFrom, spellingOf_string isSpelling, keywordOf_string,
    bind, Except.bind, isNew]

/-- An entry that offends is reported. -/
theorem entriesFrom_cons_of_offends
    (taken : Taken before found) (offends : Offends before pair defect)
    (rest : List (Document × Document)) :
    entriesFrom found (pair :: rest) = .error defect := by
  cases offends with
  | spelling value notSpelling =>
      simp only [entriesFrom, spellingOf_of_not notSpelling, bind, Except.bind]
  | unknown isSpelling notNamed =>
      simp only [entriesFrom, spellingOf_string isSpelling, keywordOf_of_not _ notNamed,
        bind, Except.bind]
  | twice isSpelling isBefore =>
      have isFound := taken.find?_eq (taken.mem_iff.mpr isBefore)
      dsimp only at isFound
      simp only [entriesFrom, spellingOf_string isSpelling, keywordOf_string, bind, Except.bind,
        isFound]

/-- Entries are taken one by one, whatever stands behind them. -/
theorem entriesFrom_append
    (taken : Taken before found) (rest : List (Document × Document)) :
    entriesFrom [] (before ++ rest) = entriesFrom found rest := by
  induction before using List.reverseRecOn generalizing found rest with
  | nil =>
      rw [List.map_eq_nil_iff.mp taken.pairs_eq, List.nil_append]
  | append_singleton front latest inductionHypothesis =>
      obtain ⟨earlier, added, rfl, isEarlier, isLatest⟩ := taken.of_append
      obtain ⟨entry, others, rfl, rfl, isEnd⟩ := List.map_eq_cons_iff.mp isLatest
      obtain rfl := List.map_eq_nil_iff.mp isEnd
      rw [List.append_assoc, List.singleton_append, inductionHypothesis isEarlier,
        entriesFrom_cons_of_taken taken]

private theorem Taken.any_isNamedBy (taken : Taken pairs entries) (keyword : Keyword) :
    pairs.any (isNamedBy keyword) = entries.any (·.keyword == keyword) := by
  rw [← taken.pairs_eq, List.any_map]
  congr 1
  funext entry
  rw [Bool.eq_iff_iff, Function.comp_apply, beq_iff_eq, ← name_injective.eq_iff]
  exact beq_iff_eq

private theorem Taken.map_snd (taken : Taken pairs entries) :
    pairs.map Prod.snd = (entries.map Entry.keyword).map fun keyword => .string keyword.name := by
  rw [← taken.pairs_eq, List.map_map, List.map_map]
  rfl

private theorem string_name_injective :
    Function.Injective fun keyword : Keyword => Document.string keyword.name :=
  fun _ _ same => name_injective (Document.string.inj same)

/-- No entry offends if the values name every keyword once. -/
theorem Bijective.blameless (bijective : Bijective pairs) : Blameless pairs := by
  intro before pair behind isSplit defect offends
  have member : pair ∈ pairs := by simp [isSplit]
  cases offends with
  | spelling value notSpelling =>
      obtain ⟨text, isText, isSpelling⟩ := bijective.keys _ member
      exact notSpelling text isText isSpelling
  | unknown _ notNamed =>
      have isValue := bijective.values.subset (List.mem_map_of_mem member)
      obtain ⟨keyword, _, isNamed⟩ := List.mem_map.mp isValue
      exact notNamed keyword isNamed.symm
  | twice _ isBefore =>
      have distinct : (pairs.map Prod.snd).Nodup := by
        rw [bijective.values.nodup_iff]
        exact List.Nodup.map string_name_injective (by decide)
      rw [isSplit, List.map_append, List.nodup_append] at distinct
      exact distinct.2.2 _ (List.mem_map_of_mem isBefore) _ (by simp) rfl

/-- Entries that are taken and spell every keyword name every keyword once. -/
theorem Taken.bijective_iff (taken : Taken pairs entries) :
    Bijective pairs ↔ all.filter (fun keyword => !entries.any (·.keyword == keyword)) = [] := by
  have isComplete : all.filter (fun keyword => !entries.any (·.keyword == keyword)) = [] ↔
      ∀ keyword, keyword ∈ entries.map Entry.keyword := by
    simp [List.filter_eq_nil_iff, mem_all]
  rw [isComplete]
  constructor
  · intro bijective keyword
    have values := bijective.values
    rw [taken.map_snd, List.map_perm_map_iff string_name_injective] at values
    exact values.mem_iff.mpr (mem_all keyword)
  · intro complete
    constructor
    · intro pair member
      rw [← taken.pairs_eq] at member
      obtain ⟨entry, isEntry, rfl⟩ := List.mem_map.mp member
      exact ⟨entry.spelling, rfl, taken.isSpelling entry isEntry⟩
    · rw [taken.map_snd]
      apply List.Perm.map
      rw [List.perm_ext_iff_of_nodup taken.distinct (by decide)]
      exact fun keyword => iff_of_true (complete keyword) (mem_all keyword)

/-! ## Documents -/

private theorem ofDocument_of_mapping
    (isTable : document.entry? "keywords" = some (.mapping pairs)) (nonempty : pairs ≠ []) :
    Table.ofDocument document = (do
      let entries ← entriesFrom [] pairs
      match all.filter (fun keyword => !entries.any (·.keyword == keyword)) with
      | [] => return ⟨entries⟩
      | missing => .error (.notSpelled missing)) := by
  cases pairs with
  | nil => exact absurd rfl nonempty
  | cons first rest =>
      unfold Table.ofDocument
      generalize document.entry? "keywords" = value at isTable ⊢
      subst isTable
      rfl

private theorem load_document (document : Document) :
    (Source.document document).load =
      (Table.ofDocument document).mapError LoadFailure.defective := by
  rw [Source.load, loadDocument]
  cases Table.ofDocument document <;> rfl

/-- A table whose entries stand in a document is what the document gives. -/
theorem ofDocument_of_bijective
    (isTable : document.entry? "keywords" = some (.mapping (table.entries.map Entry.toPair)))
    (bijective : Bijective (table.entries.map Entry.toPair)) :
    Table.ofDocument document = .ok table := by
  have nonempty : table.entries.map Entry.toPair ≠ [] := by
    intro isEmpty
    have values := bijective.values
    rw [isEmpty] at values
    exact absurd values.length_eq (by decide)
  obtain ⟨entries, taken⟩ := bijective.blameless.exists_taken
  obtain rfl := List.map_injective_iff.mpr Entry.toPair_injective taken.pairs_eq
  have isRead := entriesFrom_append taken []
  rw [List.append_nil] at isRead
  rw [ofDocument_of_mapping isTable nonempty, isRead]
  simp only [entriesFrom, bind, Except.bind, taken.bijective_iff.mp bijective]
  rfl

/-- What is wrong with a document is reported. -/
theorem ofDocument_of_faulty (faulty : Faulty document defect) :
    Table.ofDocument document = .error defect := by
  cases faulty with
  | noTable isNone =>
      unfold Table.ofDocument
      split
      · rename_i isTable
        cases isNone _ isTable
      · rfl
  | @entry before behind pair _ isTable blameless offends =>
      obtain ⟨found, taken⟩ := blameless.exists_taken
      rw [ofDocument_of_mapping isTable (by simp), entriesFrom_append taken,
        entriesFrom_cons_of_offends taken offends]
      rfl
  | @missing pairs missing isTable nonempty blameless isMissing notNil =>
      obtain ⟨entries, taken⟩ := blameless.exists_taken
      have isRead := entriesFrom_append taken []
      rw [List.append_nil] at isRead
      simp only [taken.any_isNamedBy] at isMissing
      rw [ofDocument_of_mapping isTable nonempty, isRead]
      simp only [entriesFrom, bind, Except.bind, isMissing]

/-- A document spells every keyword once, or something is wrong with it. -/
theorem exists_bijective_or_faulty (document : Document) :
    (∃ table : Table, document.entry? "keywords" = some (.mapping (table.entries.map Entry.toPair)) ∧
        Bijective (table.entries.map Entry.toPair)) ∨
      ∃ defect, Faulty document defect := by
  by_cases isTable : ∃ pairs, document.entry? "keywords" = some (.mapping pairs) ∧ pairs ≠ []
  · obtain ⟨pairs, isTable, nonempty⟩ := isTable
    rcases exists_taken_or_offends pairs with ⟨entries, taken⟩ | isOffended
    · by_cases bijective : Bijective pairs
      · rw [← taken.pairs_eq] at isTable bijective
        exact .inl ⟨⟨entries⟩, isTable, bijective⟩
      · rw [taken.bijective_iff] at bijective
        simp only [← taken.any_isNamedBy] at bijective
        exact .inr ⟨_, .missing isTable nonempty taken.blameless rfl bijective⟩
    · obtain ⟨before, pair, behind, found, defect, rfl, taken, offends⟩ := isOffended
      exact .inr ⟨defect, .entry isTable taken.blameless offends⟩
  · apply Or.inr
    refine ⟨_, .noTable fun pairs isMapping => ?_⟩
    by_contra nonempty
    exact isTable ⟨pairs, isMapping, nonempty⟩

theorem load_document_eq_ok_iff :
    (Source.document document).load = .ok table ↔
      document.entry? "keywords" = some (.mapping (table.entries.map Entry.toPair)) ∧
        Bijective (table.entries.map Entry.toPair) := by
  rw [load_document]
  constructor
  · intro loaded
    rcases exists_bijective_or_faulty document with ⟨other, isTable, bijective⟩ | ⟨defect, faulty⟩
    · rw [ofDocument_of_bijective isTable bijective] at loaded
      cases loaded
      exact ⟨isTable, bijective⟩
    · rw [ofDocument_of_faulty faulty] at loaded
      cases loaded
  · intro spelled
    rw [ofDocument_of_bijective spelled.1 spelled.2]
    rfl

theorem isSpelling_of_load_document
    (loaded : (Source.document document).load = .ok table) (member : entry ∈ table.entries) :
    isSpelling entry.spelling = true := by
  have bijective := (load_document_eq_ok_iff.mp loaded).2
  obtain ⟨text, isText, given⟩ := bijective.keys _ (List.mem_map_of_mem member)
  rw [isSpelling_iff, Document.string.inj isText]
  exact given

end RomanScript.Keyword
