import RomanScript.Proofs.Text.Decimal
import RomanScript.Proofs.Text.Quoted
import RomanScript.Token

/-!
# The lines of a listing

A line shows the name of a symbol, the quoted text if there is one, and the place, behind an
indentation. Names have no blanks, so the line can be cut again: what is in front of the first
characters that are no blanks is the indentation, and what is behind the last blank is the place.
-/

namespace RomanScript

section Cuts

variable {α : Type} {mark : α} {front front' rest rest' : List α}

/-- The first of some marks cuts a list in one way only. -/
theorem eq_of_append_cons_eq
    [DecidableEq α]
    (first : mark ∉ front) (first' : mark ∉ front')
    (same : front ++ mark :: rest = front' ++ mark :: rest') : front = front' ∧ rest = rest' := by
  have pieces := congrArg (List.splitOn mark) same
  rw [List.splitOn_append_cons_self_of_not_mem first,
    List.splitOn_append_cons_self_of_not_mem first'] at pieces
  obtain ⟨sameFront, _⟩ := List.cons.inj pieces
  subst sameFront
  exact ⟨rfl, (List.cons.inj (List.append_cancel_left same)).2⟩

/-- And so does the last of them. -/
theorem eq_of_append_cons_eq_last
    [DecidableEq α]
    (last : mark ∉ rest) (last' : mark ∉ rest')
    (same : front ++ mark :: rest = front' ++ mark :: rest') : front = front' ∧ rest = rest' := by
  have reversed := congrArg List.reverse same
  simp only [List.reverse_append, List.reverse_cons, List.append_assoc, List.singleton_append]
    at reversed
  obtain ⟨sameRest, sameFront⟩ := eq_of_append_cons_eq (by simpa using last) (by simpa using last')
    reversed
  exact ⟨List.reverse_injective sameFront, List.reverse_injective sameRest⟩

/-- So do all marks at the beginning. -/
theorem eq_of_replicate_append_eq
    {size size' : Nat} (begins : rest.head? ≠ some mark) (begins' : rest'.head? ≠ some mark)
    (same : List.replicate size mark ++ rest = List.replicate size' mark ++ rest') :
    size = size' ∧ rest = rest' := by
  induction size generalizing size' with
  | zero =>
      cases size' with
      | zero => exact ⟨rfl, same⟩
      | succ size' =>
          have head := congrArg List.head? same
          exact absurd head begins
  | succ size inductionHypothesis =>
      cases size' with
      | zero =>
          have head := congrArg List.head? same
          exact absurd head.symm begins'
      | succ size' =>
          obtain ⟨sameSize, sameRest⟩ := inductionHypothesis (List.cons.inj same).2
          exact ⟨congrArg (· + 1) sameSize, sameRest⟩

end Cuts

private theorem Token.toList_placeMark (line column : Int) :
    (Token.placeMark line column).toList =
      'L' :: (Text.decimal line).toList ++ ':' :: (Text.decimal column).toList := by
  simp [Token.placeMark]

private theorem Token.not_mem_placeMark
    {char : Char} (noDigit : char.isDigit = false) (apart : char ∉ ['-', 'L', ':'])
    (line column : Int) : char ∉ (Token.placeMark line column).toList := by
  simp only [List.mem_cons, List.not_mem_nil, or_false, not_or] at apart
  rw [Token.toList_placeMark]
  simp [apart, Text.not_mem_decimal noDigit apart.1]

private theorem Token.placeMark_inj
    {line column line' column' : Int}
    (same : Token.placeMark line column = Token.placeMark line' column') :
    line = line' ∧ column = column' := by
  have chars := congrArg String.toList same
  rw [Token.toList_placeMark, Token.toList_placeMark, List.cons_append, List.cons_append] at chars
  have apart : ∀ value, ':' ∉ (Text.decimal value).toList :=
    Text.not_mem_decimal (by decide) (by decide)
  obtain ⟨lines, columns⟩ := eq_of_append_cons_eq (apart _) (apart _) (List.cons.inj chars).2
  exact ⟨Text.decimal_injective (String.toList_inj.mp lines),
    Text.decimal_injective (String.toList_inj.mp columns)⟩

namespace Symbol

variable {symbol other : Symbol}

private theorem names_plain :
    (terminals ++ rules).all (fun symbol => !symbol.name.toList.isEmpty &&
      symbol.name.toList.all fun char => char != ' ' && char != '\n') = true := by
  decide

private theorem name_ne_nil (known : symbol ∈ terminals ++ rules) : symbol.name.toList ≠ [] := by
  have plain := List.all_eq_true.mp names_plain symbol known
  intro empty
  rw [empty] at plain
  cases plain

/-- The names of symbols have neither blanks nor line breaks. -/
theorem not_mem_name
    {char : Char} (known : symbol ∈ terminals ++ rules) (blank : char ∈ [' ', '\n']) :
    char ∉ symbol.name.toList := by
  intro member
  have plain := List.all_eq_true.mp names_plain symbol known
  rw [Bool.and_eq_true, List.all_eq_true] at plain
  have apart := plain.2 char member
  simp only [List.mem_cons, List.not_mem_nil, or_false] at blank
  rcases blank with rfl | rfl
  · exact absurd apart (by decide)
  · exact absurd apart (by decide)

theorem eq_of_name_eq
    (known : symbol ∈ terminals ++ rules) (known' : other ∈ terminals ++ rules)
    (same : symbol.name = other.name) : symbol = other := by
  rw [← ofName_name known, same, ofName_name known']

end Symbol

/-- What the line of a node tells, apart from its indentation. A branch shows no text. -/
structure Heading where
  symbol : Symbol
  text : Option String
  line : Int
  column : Int

namespace Heading

def label (heading : Heading) : List Char :=
  match heading.text with
  | none => heading.symbol.name.toList
  | some text => heading.symbol.name.toList ++ ' ' :: (Text.quoted text).toList

def row (indent : Nat) (heading : Heading) : List Char :=
  (List.replicate (2 * indent) ' ' ++ heading.label) ++
    ' ' :: (Token.placeMark heading.line heading.column).toList

def Known (heading : Heading) : Prop :=
  heading.symbol ∈ Symbol.terminals ++ Symbol.rules

variable {heading other : Heading}

private theorem label_head?_ne (known : heading.Known) : heading.label.head? ≠ some ' ' := by
  have apart : ' ' ∉ heading.symbol.name.toList := Symbol.not_mem_name known (by simp)
  have begins : heading.label.head? = heading.symbol.name.toList.head? := by
    cases isText : heading.text with
    | none => simp only [label, isText]
    | some text =>
        simp only [label, isText]
        exact List.head?_append_of_ne_nil _ (Symbol.name_ne_nil known)
  rw [begins]
  intro blank
  exact apart (List.mem_of_head? blank)

theorem newline_not_mem_row (known : heading.Known) (indent : Nat) :
    '\n' ∉ heading.row indent := by
  have noName : '\n' ∉ heading.symbol.name.toList := Symbol.not_mem_name known (by simp)
  have noMark : '\n' ∉ (Token.placeMark heading.line heading.column).toList :=
    Token.not_mem_placeMark (by decide) (by decide) _ _
  have noLabel : '\n' ∉ heading.label := by
    cases isText : heading.text with
    | none => simpa only [label, isText] using noName
    | some text => simp [label, isText, noName, Text.newline_not_mem_quoted]
  simp [row, noLabel, noMark]

/-- A label tells the symbol and, if there is one, the text. -/
theorem label_inj
    (known : heading.Known) (known' : other.Known) (same : heading.label = other.label) :
    heading.symbol = other.symbol ∧ heading.text = other.text := by
  have apart : ' ' ∉ heading.symbol.name.toList := Symbol.not_mem_name known (by simp)
  have apart' : ' ' ∉ other.symbol.name.toList := Symbol.not_mem_name known' (by simp)
  have symbols (names : heading.symbol.name.toList = other.symbol.name.toList) :
      heading.symbol = other.symbol :=
    Symbol.eq_of_name_eq known known' (String.toList_inj.mp names)
  cases isText : heading.text with
  | none =>
      cases isText' : other.text with
      | none =>
          simp only [label, isText, isText'] at same
          exact ⟨symbols same, rfl⟩
      | some text' =>
          simp only [label, isText, isText'] at same
          exact absurd (same ▸ List.mem_append_right _ List.mem_cons_self) apart
  | some text =>
      cases isText' : other.text with
      | none =>
          simp only [label, isText, isText'] at same
          exact absurd (same ▸ List.mem_append_right _ List.mem_cons_self) apart'
      | some text' =>
          simp only [label, isText, isText'] at same
          obtain ⟨names, texts⟩ := eq_of_append_cons_eq apart apart' same
          exact ⟨symbols names, congrArg some (Text.quoted_injective (String.toList_inj.mp texts))⟩

/-- A line tells its indentation and what stands in it. -/
theorem row_inj
    {indent indent' : Nat} (known : heading.Known) (known' : other.Known)
    (same : heading.row indent = other.row indent') : indent = indent' ∧ heading = other := by
  have apart : ∀ line column, ' ' ∉ (Token.placeMark line column).toList :=
    Token.not_mem_placeMark (by decide) (by decide)
  obtain ⟨front, mark⟩ := eq_of_append_cons_eq_last (apart _ _) (apart _ _) same
  obtain ⟨sizes, labels⟩ := eq_of_replicate_append_eq (label_head?_ne known)
    (label_head?_ne known') front
  obtain ⟨symbols, texts⟩ := label_inj known known' labels
  obtain ⟨lines, columns⟩ := Token.placeMark_inj (String.toList_inj.mp mark)
  refine ⟨by omega, ?_⟩
  cases heading
  cases other
  cases symbols
  cases texts
  cases lines
  cases columns
  rfl

end Heading

end RomanScript
