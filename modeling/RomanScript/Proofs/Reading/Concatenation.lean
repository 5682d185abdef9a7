import RomanScript.Proofs.Reading.Program
import RomanScript.Proofs.Reading.SimulatedRules

/-!
# Programs one behind the other

The statements of two programs in one text. The first ones are read as they are alone, up to the
place where their text would end. From there on the second ones are read as if they stood alone,
except that the levels refused before are still counted.
-/

namespace RomanScript.Grammar

open Reading

/-- The right tokens from `offset` on begin like the left ones; where the left text ends, the right
one may go on, but not with an expression. -/
structure Displacement (left right : Input) (offset : Int) : Prop where
  settings : right.settings = left.settings
  terminated : left.Terminated
  nonneg : 0 ≤ offset
  size : left.tokens.size + offset ≤ right.tokens.size
  facing {position : Int} {x y : Token} :
    0 ≤ position → position < left.tokens.size →
    left.tokenAt? position = some x → right.tokenAt? (position + offset) = some y →
    x = y ∨ (x.symbol = .endOfText ∧ y.symbol ∈ boundary)

/-- The same rule was read in both texts; if both gave a node it is the same. -/
structure DisplacedEntry (left : Input) (offset : Int) (entry entry' : Remembered) : Prop where
  symbol : entry'.symbol = entry.symbol
  start : entry'.start = entry.start + offset
  inside : entry.start + 1 < left.tokens.size
  result : entry'.result.toOption =
    entry.result.toOption.map fun (node, finish) => (node, finish + offset)
  finish {node : Node} {finish : Int} :
    entry.result = .ok (node, finish) → 0 ≤ finish ∧ finish < left.tokens.size

/-- A run on a text and the run on another, where it stands behind `offset` tokens and some results
are remembered from before. -/
def displaced (left right : Input) (offset : Int) (older : List Remembered) :
    Simulation left right where
  nodes := Eq
  diagnostics _ _ := True
  states _ s t :=
    0 ≤ s.position ∧ s.position < left.tokens.size ∧ t.position = s.position + offset ∧
      s.calls = t.calls ∧ s.nesting = t.nesting ∧
        ∃ newer, t.memory = newer ++ older ∧
          List.Forall₂ (DisplacedEntry left offset) s.memory newer
  excused _ _ _ := False

variable {left right : Input} {offset : Int} {older : List Remembered}

private theorem Displacement.crosses_iff
    (displacement : Displacement left right offset) {s t : State} (nesting : s.nesting = t.nesting) :
    left.Crosses s ↔ right.Crosses t := by
  unfold Input.Crosses
  rw [displacement.settings, nesting]

private theorem Displacement.exceeds_iff
    (displacement : Displacement left right offset) {node : Node} :
    left.Exceeds node ↔ right.Exceeds node := by
  unfold Input.Exceeds
  rw [displacement.settings]

private theorem displaced_lawful
    (displacement : Displacement left right offset) :
    (displaced left right offset older).Lawful where
  facing := by
    intro depth s t x y related ahead ahead'
    obtain ⟨nonneg, inside, position, _⟩ := related
    rw [position] at ahead'
    rcases displacement.facing nonneg inside ahead ahead' with rfl | ends
    · exact .inl ⟨rfl, rfl⟩
    · exact .inr ends
  following := by
    intro depth s t x y related name behind behind'
    obtain ⟨nonneg, inside, position, _⟩ := related
    obtain ⟨token, standing⟩ := name
    have next := standing.succ_lt_size nonneg displacement.terminated (by decide)
    rw [position, Int.add_right_comm] at behind'
    rcases displacement.facing (by omega) next behind behind' with rfl | ends
    · exact .inl ⟨rfl, rfl⟩
    · exact .inr ends
  advanced := by
    intro depth s t x y related ahead _ _ notEnd
    obtain ⟨nonneg, inside, position, rest⟩ := related
    have standing : left.At s.position [x.symbol] x := ⟨ahead, .head _⟩
    have next := standing.succ_lt_size nonneg displacement.terminated (by simpa using notEnd.symm)
    have size := displacement.size
    unfold Input.advanced
    rw [if_pos inside, if_pos (by omega)]
    exact ⟨by dsimp only; omega, next, by dsimp only; omega, rest⟩
  unexpected _ _ _ _ := trivial
  calls related := related.2.2.2.1
  withCalls := by
    intro depth s t calls related
    obtain ⟨nonneg, inside, position, _, rest⟩ := related
    exact ⟨nonneg, inside, position, rfl, rest⟩
  visited _ related := related
  entered := by
    intro depth s t related _ _
    obtain ⟨nonneg, inside, position, calls, nesting, memory⟩ := related
    exact ⟨nonneg, inside, position, calls, congrArg (· + 1) nesting, memory⟩
  shallower := by
    intro depth s t related
    obtain ⟨nonneg, inside, position, calls, nesting, memory⟩ := related
    exact ⟨nonneg, inside, position, calls, congrArg (· - 1) nesting, memory⟩
  refusedLeft := by
    intro depth s t related crosses
    obtain ⟨nonneg, inside, position, calls, nesting, memory⟩ := related
    refine .inl ⟨(displacement.crosses_iff nesting).mp crosses, ?_, fun _ _ _ _ => trivial⟩
    exact ⟨s.position, t.position, nonneg, inside, position, calls, congrArg (· + 1) nesting,
      memory⟩
  refusedRight := by
    intro depth s t related crosses
    exact .inl ((displacement.crosses_iff related.2.2.2.2.1).mpr crosses)
  placed earlier later := ⟨earlier.1, earlier.2.1, earlier.2.2.1, later.2.2.2⟩
  rule symbol _ _ same _ := congrArg (Node.rule symbol) (eq_of_pointwise same)
  expressionRule := by
    intro symbol children children' same _
    obtain rfl := eq_of_pointwise same
    exact .expressionRule displacement.exceeds_iff rfl trivial id
  excused_grows excuse := excuse.elim
  excused_calls _ _ excuse := excuse.elim
  excused_shallower excuse := excuse.elim

/-- What is remembered from before is never found, since it stands further ahead. -/
theorem find?_displaced
    {memory newer : List Remembered}
    (entries : List.Forall₂ (DisplacedEntry left offset) memory newer)
    (before : ∀ entry ∈ older, entry.start < offset)
    (symbol : Symbol) {start : Int} (nonneg : 0 ≤ start) :
    (memory.find? (fun entry => entry.symbol == symbol && entry.start == start) = none ∧
        (newer ++ older).find? (fun entry =>
          entry.symbol == symbol && entry.start == start + offset) = none) ∨
      ∃ entry entry',
        memory.find? (fun entry => entry.symbol == symbol && entry.start == start) = some entry ∧
          (newer ++ older).find? (fun entry =>
            entry.symbol == symbol && entry.start == start + offset) = some entry' ∧
              DisplacedEntry left offset entry entry' := by
  induction entries with
  | nil =>
      refine .inl ⟨rfl, List.find?_eq_none.mpr ?_⟩
      intro entry member isKey
      have isStart : entry.start = start + offset := by simp at isKey; exact isKey.2
      have early := before entry member
      omega
  | @cons entry entry' memory newer displacedEntry _ inductionHypothesis =>
      have sameKey : (entry'.symbol == symbol && entry'.start == start + offset) =
          (entry.symbol == symbol && entry.start == start) := by
        rw [displacedEntry.symbol, displacedEntry.start]
        have sameStart : (entry.start + offset == start + offset) = (entry.start == start) := by
          rw [Bool.eq_iff_iff, beq_iff_eq, beq_iff_eq]
          omega
        rw [sameStart]
      rw [List.cons_append, List.find?_cons, List.find?_cons, sameKey]
      cases entry.symbol == symbol && entry.start == start with
      | true => exact .inr ⟨entry, entry', rfl, rfl, displacedEntry⟩
      | false => exact inductionHypothesis

private theorem displaced_recalled
    {depth : Int} {s t : State}
    (related : (displaced left right offset older).states depth s t)
    {entry entry' : Remembered} (displacedEntry : DisplacedEntry left offset entry entry') :
    (displaced left right offset older).Outcome depth
      ((displaced left right offset older).Valued depth Eq)
      (recalled entry.result s) (recalled entry'.result t) := by
  obtain ⟨nonneg, inside, position, rest⟩ := related
  have sameResult := displacedEntry.result
  have bounds := @displacedEntry.finish
  generalize entry.result = result at sameResult bounds ⊢
  generalize entry'.result = result' at sameResult ⊢
  cases result with
  | error diagnostic =>
      cases result' with
      | error diagnostic' =>
          exact .diagnostic trivial ⟨s.position, t.position, nonneg, inside, position, rest⟩
      | ok value => cases sameResult
  | ok value =>
      obtain ⟨node, finish⟩ := value
      cases result' with
      | error diagnostic' => cases sameResult
      | ok value' =>
          cases sameResult
          have inText := bounds rfl
          exact .value ⟨rfl, inText.1, inText.2, rfl, rest⟩

private theorem displaced_remembering
    (displacement : Displacement left right offset)
    (before : ∀ entry ∈ older, entry.start < offset)
    (symbol : Symbol) {symbols : List Symbol} (notEnd : .endOfText ∉ symbols)
    {body body' : Reading Node}
    (follows : (displaced left right offset older).FollowsAt symbols body body' Eq) :
    (displaced left right offset older).FollowsAt symbols (remembering left symbol body)
      (remembering right symbol body') Eq := by
  intro depth s t related ahead
  have inner := follows depth s t related ahead
  obtain ⟨token, standing⟩ := ahead
  obtain ⟨nonneg, inside, position, calls, nesting, newer, memory, entries⟩ := related
  have next := standing.succ_lt_size nonneg displacement.terminated notEnd
  have bodies : (displaced left right offset older).Outcome depth
      ((displaced left right offset older).Valued depth Eq)
      (recorded symbol s (body s)) (recorded symbol t (body' t)) := by
    refine inner.recorded ?_ ?_ False.elim
    · rintro node _ s' t' - rfl
        ⟨nonneg', inside', position', calls', nesting', newer', memory', entries'⟩
      refine ⟨nonneg', inside', position', calls', nesting', _ :: newer',
        congrArg (List.cons _) memory', .cons ⟨rfl, position, next, ?_, ?_⟩ entries'⟩
      · dsimp only [Except.toOption, Option.map]
        rw [position']
      · rintro _ _ ⟨⟩
        exact ⟨nonneg', inside'⟩
    · rintro x y s' t' - -
        ⟨place, place', nonneg', inside', position', calls', nesting', newer', memory', entries'⟩
      refine ⟨place, place', nonneg', inside', position', calls', nesting', _ :: newer',
        congrArg (List.cons _) memory', .cons ⟨rfl, position, next, rfl, ?_⟩ entries'⟩
      rintro _ _ ⟨⟩
  unfold remembering
  rw [displacement.settings]
  cases left.settings.remembers with
  | false => exact bodies
  | true =>
      have found := find?_displaced entries before symbol nonneg
      rw [← memory, ← position] at found
      rcases found with ⟨missing, missing'⟩ | ⟨entry, entry', isFirst, isFirst', displacedEntry⟩
      · dsimp only [State.recall?, if_true]
        rw [if_pos rfl, if_pos rfl, missing, missing']
        exact bodies
      · dsimp only [State.recall?]
        rw [if_pos rfl, if_pos rfl, isFirst, isFirst']
        exact displaced_recalled
          ⟨nonneg, inside, position, calls, nesting, newer, memory, entries⟩ displacedEntry

private theorem displaced_remembers
    (displacement : Displacement left right offset)
    (before : ∀ entry ∈ older, entry.start < offset) :
    (displaced left right offset older).Remembers where
  group _ _ follows := displaced_remembering displacement before .group (by decide) follows
  conditional _ _ follows :=
    displaced_remembering displacement before .conditional (by decide) follows

/-- A statement of the left text is the first that the right run reads. -/
theorem displaced_firstStatement
    (displacement : Displacement left right offset)
    (before : ∀ entry ∈ older, entry.start < offset)
    {depth : Int} (steps : Nat) {s t s₁ : State} {first : Node}
    (related : (displaced left right offset older).states depth s t)
    {x : Token} (ahead : left.tokenAt? s.position = some x) (notEnd : x.symbol ≠ .endOfText)
    (read : statement left s = (.ok first, s₁)) :
    (∃ misuse t', statementsWithin right (steps + 1) t = (.error (.misuse misuse), t')) ∨
      ∃ t₁, (displaced left right offset older).states depth s₁ t₁ ∧
        statementsWithin right (steps + 1) t =
          (statementsWithin right steps >>= fun rest => pure (first :: rest)) t₁ := by
  have lawful : (displaced left right offset older).Lawful := displaced_lawful displacement
  have notAhead : ¬ left.Ahead [.endOfText] s.position :=
    not_ahead_of_tokenAt? left ahead (by simpa using notEnd)
  have firsts := Simulation.follows_statement lawful (displaced_remembers displacement before)
    related notAhead
  rw [statementsWithin_succ_apply]
  cases ahead' : right.tokenAt? t.position with
  | none => exact .inl ⟨_, _, rfl⟩
  | some y =>
      have notEnd' : y.symbol ≠ .endOfText := by
        rcases lawful.facing related ahead ahead' with same | ends
        · exact same.1 ▸ notEnd
        · exact absurd ends.1 notEnd
      dsimp only
      rw [if_neg notEnd', bind_apply]
      rw [read] at firsts
      generalize statement right t = outcome at firsts ⊢
      cases firsts with
      | rightMisuse => exact .inl ⟨_, _, rfl⟩
      | excused excuse => exact excuse.elim
      | value valued =>
          obtain ⟨rfl, related₁⟩ := valued
          exact .inr ⟨_, related₁, rfl⟩

/-- Where the left text ends, the right run goes on with the same statements read. -/
theorem displaced_statementsWithin
    (displacement : Displacement left right offset)
    (before : ∀ entry ∈ older, entry.start < offset)
    {depth : Int} (steps steps' : Nat) {s t s' : State} {nodes : List Node}
    (related : (displaced left right offset older).states depth s t)
    (succeeded : statementsWithin left steps s = (.ok nodes, s')) :
    (∃ misuse t', statementsWithin right steps' t = (.error (.misuse misuse), t')) ∨
      ∃ t' more, (displaced left right offset older).states depth s' t' ∧
        left.Ahead [.endOfText] s'.position ∧
          statementsWithin right steps' t =
            (statementsWithin right more >>= fun rest => pure (nodes ++ rest)) t' := by
  induction steps generalizing steps' s t nodes with
  | zero => cases succeeded
  | succ steps inductionHypothesis =>
      cases steps' with
      | zero => exact .inl ⟨_, _, rfl⟩
      | succ steps' =>
          rw [statementsWithin_succ_apply] at succeeded
          cases ahead : left.tokenAt? s.position with
          | none =>
              rw [ahead] at succeeded
              cases succeeded
          | some x =>
              rw [ahead] at succeeded
              dsimp only at succeeded
              by_cases isEnd : x.symbol = .endOfText
              · rw [if_pos isEnd] at succeeded
                cases succeeded
                refine .inr ⟨t, steps' + 1, related, ⟨x, ahead, isEnd ▸ .head _⟩, ?_⟩
                rw [bind_apply]
                rcases statementsWithin right (steps' + 1) t with ⟨_ | _, _⟩ <;> rfl
              · rw [if_neg isEnd] at succeeded
                obtain ⟨first, s₁, firstRead, succeeded⟩ := exists_of_bind_ok succeeded
                obtain ⟨rest, s₂, restRead, succeeded⟩ := exists_of_bind_ok succeeded
                cases succeeded
                rcases displaced_firstStatement displacement before steps' related ahead isEnd
                  firstRead with failed | ⟨t₁, related₁, begun⟩
                · exact .inl failed
                rw [begun, bind_apply]
                rcases inductionHypothesis steps' related₁ restRead with
                  ⟨misuse, t₂, failed⟩ | ⟨t₂, more, related₂, atEnd, continued⟩
                · rw [failed]
                  exact .inl ⟨_, _, rfl⟩
                · refine .inr ⟨t₂, more, related₂, atEnd, ?_⟩
                  rw [continued, bind_apply, bind_apply]
                  rcases statementsWithin right more t₂ with ⟨_ | _, _⟩ <;> rfl

private theorem start_of_displaced
    {memory newer : List Remembered}
    (entries : List.Forall₂ (DisplacedEntry left offset) memory newer) :
    ∀ entry ∈ newer, entry.start + 1 < left.tokens.size + offset := by
  induction entries with
  | nil =>
      intro entry member
      exact absurd member List.not_mem_nil
  | cons displacedEntry _ inductionHypothesis =>
      intro entry member
      rcases List.mem_cons.mp member with rfl | older
      · have start := displacedEntry.start
        have inside := displacedEntry.inside
        omega
      · exact inductionHypothesis entry older

/-- When the left text is read, the right run stands where that text would end, with as many levels
counted, and the rest of the right text decides how it ends. -/
theorem program_displaced
    (displacement : Displacement left right 0) (terminated : right.Terminated)
    (onlyEnd : ∀ position : Int, 0 ≤ position → position < left.tokens.size →
      left.Ahead [.endOfText] position → position + 1 = left.tokens.size)
    {root : Node} {after : State} (accepted : program left State.start = (.ok root, after)) :
    ∃ (t : State) (more : Nat),
      t.position + 1 = left.tokens.size ∧ t.calls = true ∧ t.nesting = after.nesting ∧
        (∀ entry ∈ t.memory, entry.start < t.position) ∧
          (program right State.start).1 =
            (programWithin right more t).1.map fun rest =>
              .rule .program (root.children.dropLast ++ rest.children) := by
  have noMisuse := program_ne_misuse terminated Ready.start rfl rfl
  rw [program_apply] at accepted noMisuse ⊢
  obtain ⟨nodes, s₁, statementsRead, accepted⟩ := exists_of_bind_ok accepted
  obtain ⟨last, s₂, lastRead, accepted⟩ := exists_of_bind_ok accepted
  cases accepted
  have size := displacement.terminated.size_pos
  have related : (displaced left right 0 []).states 0 State.start State.start :=
    ⟨Int.le_refl 0, Int.natCast_pos.mpr size, rfl, rfl, rfl, [], rfl, .nil⟩
  unfold programWithin at noMisuse ⊢
  rcases displaced_statementsWithin displacement (fun _ member => absurd member List.not_mem_nil) _
    (right.budget State.start) related
    statementsRead with ⟨misuse, t, failed⟩ | ⟨t, more, related₁, atEnd, continued⟩
  · rw [bind_apply, failed] at noMisuse
    exact (noMisuse misuse rfl).elim
  obtain ⟨nonneg, inside, position, calls, nesting, newer, memory, entries⟩ := related₁
  have kept : Grows left State.start
      (statementsWithin left (left.budget State.start) State.start).2 := Keeps.grows _
  rw [statementsRead] at kept
  have finished := onlyEnd s₁.position nonneg inside atEnd
  obtain ⟨token, ahead, _⟩ := atEnd
  rw [leaf_apply, ahead] at lastRead
  cases lastRead
  refine ⟨t, more, by omega, calls.symm.trans kept.calls, ?_, ?_, ?_⟩
  · rw [advanced_nesting]
    exact nesting.symm
  · intro entry member
    rw [memory, List.append_nil] at member
    have start := start_of_displaced entries entry member
    omega
  · rw [bind_apply, continued, bind_apply, bind_apply]
    rcases statementsWithin right more t with ⟨_ | rest, t₁⟩
    · rfl
    · dsimp only [pure_apply]
      rw [bind_apply, bind_apply]
      rcases leaf right t₁ with ⟨_ | finish, t₂⟩
      · rfl
      · simp [Except.map, Node.rule, Node.children]

/-! ## Two texts in one -/

section Texts

variable {front second : List Token} {finish next : Token} {path : Option String}
    {settings : Settings}

/-- The first text stands at the beginning of both texts together. -/
theorem displacement_front
    (isEnd : finish.symbol = .endOfText) (bounds : next.symbol ∈ boundary) :
    Displacement ⟨(front ++ [finish]).toArray, path, settings⟩
      ⟨(front ++ next :: second).toArray, path, settings⟩ 0 where
  settings := rfl
  terminated := ⟨finish, by simp, isEnd⟩
  nonneg := Int.le_refl 0
  size := by
    simp only [List.size_toArray, List.length_append, List.length_cons, List.length_nil]
    omega
  facing := by
    intro position x y nonneg inside ahead ahead'
    rw [tokenAt?_toArray _ _ _ nonneg] at ahead
    rw [Int.add_zero, tokenAt?_toArray _ _ _ nonneg] at ahead'
    have within : position < (front ++ [finish]).length := by simpa using inside
    have within' : position < (front ++ next :: second).length := by
      simp only [List.length_append, List.length_cons, List.length_nil] at within ⊢
      omega
    rw [if_pos within] at ahead
    rw [if_pos within'] at ahead'
    by_cases early : position.toNat < front.length
    · rw [List.getElem?_append_left early] at ahead ahead'
      rw [ahead, Option.some.injEq] at ahead'
      exact .inl ahead'
    · have atEnd : position.toNat = front.length := by
        simp only [List.length_append, List.length_cons, List.length_nil] at within
        omega
      rw [atEnd] at ahead ahead'
      simp only [List.getElem?_append_right (Nat.le_refl _), Nat.sub_self,
        List.getElem?_cons_zero, Option.some.injEq] at ahead ahead'
      exact .inr ⟨ahead ▸ isEnd, ahead' ▸ bounds⟩

/-- A text that stands behind others is the same, read from its beginning. -/
theorem tokenAt?_append
    {position : Int} (nonneg : 0 ≤ position) (inside : position < second.length) :
    (Input.mk (front ++ second).toArray path settings).tokenAt? (position + front.length) =
      (Input.mk second.toArray path settings).tokenAt? position := by
  rw [tokenAt?_toArray _ _ _ nonneg, tokenAt?_toArray _ _ _ (by omega), if_pos inside,
    if_pos (by simp only [List.length_append]; omega), List.getElem?_append_right (by omega)]
  congr 1
  omega

private theorem displacement_back
    (terminated : (Input.mk second.toArray path settings).Terminated) :
    Displacement ⟨second.toArray, path, settings⟩ ⟨(front ++ second).toArray, path, settings⟩
      front.length where
  settings := rfl
  terminated := terminated
  nonneg := Int.natCast_nonneg _
  size := by
    simp only [List.size_toArray, List.length_append]
    omega
  facing := by
    intro position x y nonneg inside ahead ahead'
    rw [tokenAt?_append nonneg (by simpa using inside), ahead, Option.some.injEq] at ahead'
    exact .inl ahead'

/-- Only the last token of the first text ends it. -/
theorem last_of_ahead
    (notEarlier : ∀ token ∈ front, token.symbol ≠ .endOfText) (position : Int)
    (nonneg : 0 ≤ position)
    (inside : position < (Input.mk (front ++ [finish]).toArray path settings).tokens.size)
    (ahead : (Input.mk (front ++ [finish]).toArray path settings).Ahead [.endOfText] position) :
    position + 1 = (Input.mk (front ++ [finish]).toArray path settings).tokens.size := by
  obtain ⟨token, found, member⟩ := ahead
  rw [tokenAt?_toArray _ _ _ nonneg] at found
  simp only [List.size_toArray, List.length_append, List.length_cons, List.length_nil]
    at inside ⊢
  by_cases early : position.toNat < front.length
  · rw [if_pos (by simp only [List.length_append]; omega), List.getElem?_append_left early]
      at found
    have inFront := List.mem_of_getElem? found
    exact (notEarlier token inFront (List.mem_singleton.mp member)).elim
  · omega

/-- What is left of both texts is read as the second text is, with as many levels counted. -/
theorem programWithin_append
    (terminated : (Input.mk second.toArray path settings).Terminated)
    {t : State} {more : Nat} (position : t.position = front.length) (calls : t.calls = true)
    (before : ∀ entry ∈ t.memory, entry.start < front.length)
    (noMisuse : ∀ misuse,
      (programWithin ⟨(front ++ second).toArray, path, settings⟩ more t).1 ≠
        .error (.misuse misuse))
    (root : Node) :
    (programWithin ⟨(front ++ second).toArray, path, settings⟩ more t).1 = .ok root ↔
      (program ⟨second.toArray, path, settings⟩ { State.start with nesting := t.nesting }).1 =
        .ok root := by
  have displacement : Displacement ⟨second.toArray, path, settings⟩
      ⟨(front ++ second).toArray, path, settings⟩ front.length :=
    displacement_back terminated
  have ready : Ready (.mk second.toArray path settings) (fun _ => True)
      { State.start with nesting := t.nesting } :=
    ⟨Int.le_refl 0, Int.natCast_nonneg _, fun _ _ member => absurd member List.not_mem_nil⟩
  have noMisuse' := program_ne_misuse terminated ready rfl rfl
  have related : (displaced ⟨second.toArray, path, settings⟩
      ⟨(front ++ second).toArray, path, settings⟩ front.length t.memory).states 0
      { State.start with nesting := t.nesting } t :=
    ⟨Int.le_refl 0, Int.natCast_pos.mpr terminated.size_pos, by rw [position]; exact (Int.zero_add _).symm,
      calls.symm, rfl, [], rfl, .nil⟩
  have beside := Simulation.follows_programWithin (displaced_lawful displacement)
    (displaced_remembers displacement before) (fun _ s _ x y related ahead ahead' => ?_)
    ((Input.mk second.toArray path settings).budget { State.start with nesting := t.nesting })
    more related
  swap
  · obtain ⟨nonneg, inside, position, _⟩ := related
    rw [position, tokenAt?_append nonneg (by simpa using inside), ahead, Option.some.injEq]
      at ahead'
    exact ⟨congrArg _ ahead', congrArg _ ahead'⟩
  rw [← program_apply] at beside
  generalize program ⟨second.toArray, path, settings⟩ { State.start with nesting := t.nesting } =
    outcome at noMisuse' beside ⊢
  generalize programWithin ⟨(front ++ second).toArray, path, settings⟩ more t = outcome'
    at noMisuse beside ⊢
  cases beside with
  | leftMisuse => exact absurd rfl (noMisuse' _)
  | rightMisuse => exact absurd rfl (noMisuse _)
  | excused excuse => exact excuse.elim
  | value same =>
      cases same
      exact Iff.rfl
  | diagnostic => constructor <;> rintro ⟨⟩

end Texts

/-- A derived program begins with a statement or the end of the text. -/
theorem exists_cons_of_derives
    {tokens : List Token} {path : Option String} {settings : Settings} {starved : Int → Prop}
    {root : Node} (derives : Derives ⟨tokens.toArray, path, settings⟩ starved root) :
    ∃ next rest, tokens = next :: rest ∧ next.symbol ∈ boundary := by
  obtain ⟨statements, finish, token, reads, _⟩ := derives
  obtain ⟨first, found, member⟩ := reads.ahead_boundary
  rw [tokenAt?_toArray _ _ _ (Int.le_refl 0)] at found
  cases tokens with
  | nil => cases found
  | cons next rest =>
      rw [if_pos (by simp only [List.length_cons]; omega)] at found
      cases found
      exact ⟨first, rest, rfl, member⟩

end RomanScript.Grammar

namespace RomanScript.Tree

open Grammar

private theorem finished_append
    (first : List Token) {second : List Token}
    (finished : (second.getLast?.map (·.symbol)) = some .endOfText) :
    ((first ++ second).getLast?.map (·.symbol)) = some .endOfText := by
  obtain ⟨finish, isLast, isEnd⟩ := Option.map_eq_some_iff.mp finished
  rw [List.getLast?_append, isLast]
  exact congrArg some isEnd

/-- Two programs are read as one, statement by statement, exactly if the second is also read when the
levels that were refused in the first are still counted. -/
theorem ofTokens_append_iff
    {first second : List Token} {path : Option String} {firstRoot secondRoot : Node}
    (firstAccepted : ofTokens first path = .ok ⟨firstRoot, path⟩)
    (secondAccepted : ofTokens second path = .ok ⟨secondRoot, path⟩)
    (notEarlier : ∀ token ∈ first.dropLast, token.symbol ≠ .endOfText) :
    ofTokens (first.dropLast ++ second) path =
        .ok ⟨.rule .program (firstRoot.children.dropLast ++ secondRoot.children), path⟩ ↔
      (program ⟨second.toArray, path, .full⟩
        { State.start with
          nesting := (program ⟨first.toArray, path, .full⟩ State.start).2.nesting }).1 =
        .ok secondRoot := by
  obtain ⟨firstFinished, _, afterFirst, firstRead⟩ := exists_of_ofTokensUnder_ok firstAccepted
  obtain ⟨secondFinished, _, afterSecond, secondRead⟩ := exists_of_ofTokensUnder_ok secondAccepted
  obtain ⟨finish, isLast, isEnd⟩ := Option.map_eq_some_iff.mp firstFinished
  have split := List.dropLast_append_getLast? finish isLast
  have finished := finished_append first.dropLast secondFinished
  have terminated := terminated_of_getLast? finished path .full
  have terminatedSecond := terminated_of_getLast? secondFinished path .full
  have derives : Ends ⟨second.toArray, path, .full⟩ (fun _ => True) _ _ :=
    ends_program terminatedSecond (fun _ _ _ _ _ _ _ => trivial) Ready.start rfl rfl
  rw [secondRead] at derives
  obtain ⟨next, rest, rfl, bounds⟩ : ∃ next rest, second = next :: rest ∧ next.symbol ∈ boundary := by
    cases derives with
    | value _ derived => exact exists_cons_of_derives derived
  have displacement : Displacement ⟨(first.dropLast ++ [finish]).toArray, path, .full⟩
      ⟨(first.dropLast ++ next :: rest).toArray, path, .full⟩ 0 :=
    displacement_front isEnd bounds
  have onlyEnd : ∀ position : Int, 0 ≤ position →
      position < (Input.mk (first.dropLast ++ [finish]).toArray path .full).tokens.size →
      (Input.mk (first.dropLast ++ [finish]).toArray path .full).Ahead [.endOfText] position →
      position + 1 = (Input.mk (first.dropLast ++ [finish]).toArray path .full).tokens.size :=
    last_of_ahead notEarlier
  rw [split] at displacement onlyEnd
  obtain ⟨t, more, position, calls, nesting, before, joined⟩ :=
    program_displaced displacement terminated onlyEnd firstRead
  have length : first.length = first.dropLast.length + 1 := by
    rw [← congrArg List.length split]
    simp
  have begins : t.position = first.dropLast.length := by
    rw [List.size_toArray, length] at position
    omega
  have noMisuse := program_ne_misuse terminated Ready.start rfl rfl
  rw [joined] at noMisuse
  have rests := programWithin_append terminatedSecond begins calls (begins ▸ before)
    (fun misuse failed => noMisuse misuse (by rw [failed]; rfl)) secondRoot
  rw [firstRead, ofTokens, ofTokensUnder_of_finished finished, joined, ← nesting, ← rests]
  generalize rootsOf : programWithin _ more t = outcome
  rcases outcome with ⟨failure | root, after⟩
  · constructor <;> rintro ⟨⟩
  · have isProgram := programWithin_root _ rootsOf
    have isProgram' : secondRoot = .rule .program secondRoot.children :=
      programWithin_root _ secondRead
    constructor
    · intro equal
      have sameRoot : Node.rule .program (firstRoot.children.dropLast ++ root.children) =
          .rule .program (firstRoot.children.dropLast ++ secondRoot.children) :=
        congrArg Tree.root (Except.ok.inj equal)
      have sameChildren : root.children = secondRoot.children :=
        List.append_cancel_left (congrArg Node.children sameRoot)
      rw [isProgram, isProgram', sameChildren]
    · intro equal
      cases equal
      rfl

/-- An output of nested groups; at most sixty-three of them are within the limits. -/
def nestedGroups (count : Nat) : List Token :=
  Token.row ((.keyword .output, "Grafo") :: List.replicate count (.openParen, "(") ++
    (.numeral, "I") :: List.replicate count (.closeParen, ")") ++ [(.endOfText, "")])

/-- The first program leaves a level behind, the second has just room enough for it. -/
theorem ofTokens_append_nestedGroups :
    ∃ firstRoot secondRoot, ofTokens refusedCall none = .ok ⟨firstRoot, none⟩ ∧
      ofTokens (nestedGroups 62) none = .ok ⟨secondRoot, none⟩ ∧
      (program ⟨refusedCall.toArray, none, .full⟩ State.start).2.nesting = 1 ∧
      ofTokens (refusedCall.dropLast ++ nestedGroups 62) none =
        .ok ⟨.rule .program (firstRoot.children.dropLast ++ secondRoot.children), none⟩ := by
  obtain ⟨firstRoot, first⟩ := exists_root_refusedCall
  have isOk : (ofTokens (nestedGroups 62) none).isOk = true := by decide +kernel
  obtain ⟨secondRoot, second⟩ := exists_root_of_isOk isOk
  have leaked : (program ⟨refusedCall.toArray, none, .full⟩ State.start).2.nesting = 1 := by
    decide +kernel
  have same : (program ⟨(nestedGroups 62).toArray, none, .full⟩
      { State.start with nesting := 1 }).1 =
      (program ⟨(nestedGroups 62).toArray, none, .full⟩ State.start).1 := by
    decide +kernel
  obtain ⟨_, _, _, secondRead⟩ := exists_of_ofTokensUnder_ok second
  refine ⟨firstRoot, secondRoot, first, second, leaked, ?_⟩
  refine (ofTokens_append_iff first second (by decide)).mpr ?_
  rw [leaked, same, secondRead]

theorem not_ofTokens_append :
    ¬ ∀ first second : List Token,
      (∀ token ∈ first.dropLast, token.symbol ≠ .endOfText) →
      (∀ token ∈ second.dropLast, token.symbol ≠ .endOfText) →
      (ofTokens first none).isOk = true → (ofTokens second none).isOk = true →
        (ofTokens (first.dropLast ++ second) none).isOk = true := by
  intro independent
  have accepted := independent refusedCall (nestedGroups 63) (by decide +kernel) (by decide +kernel)
    (by decide +kernel) (by decide +kernel)
  revert accepted
  decide +kernel

end RomanScript.Tree
