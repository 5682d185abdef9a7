/-!
Keywords. The language has five of them; how each is spelled is a matter of a table, so that the
same program can be written with other words.
-/

namespace RomanScript

inductive Keyword where
  | declare
  | define
  | output
  | input
  | choose
  deriving DecidableEq, Repr

namespace Keyword

def name : Keyword → String
  | declare => "AS"
  | define => "MUNUS"
  | output => "GRAFO"
  | input => "ANAGNOSI"
  | choose => "SINON"

/-- All keywords, in the order in which missing ones are listed. -/
def all : List Keyword :=
  [declare, define, output, input, choose]

def ofName? (name : String) : Option Keyword :=
  all.find? (·.name == name)

structure Entry where
  spelling : String
  keyword : Keyword
  deriving DecidableEq, Repr

/-- The spellings in use, in the order in which they are listed. -/
structure Table where
  entries : List Entry
  deriving DecidableEq, Repr

def Table.usual : Table where
  entries := [
    ⟨"As", declare⟩, ⟨"Munus", define⟩, ⟨"Grafo", output⟩, ⟨"Anagnosi", input⟩, ⟨"Sinon", choose⟩]

/-- The entry whose spelling is the longest that `chars` starts with. -/
def Table.longestAt (table : Table) (chars : List Char) : Option Entry :=
  table.entries.foldl
    (fun best entry =>
      if entry.spelling.toList.isPrefixOf chars
          && best.all (fun chosen => chosen.spelling.length < entry.spelling.length) then
        some entry
      else best)
    none

end Keyword

end RomanScript
