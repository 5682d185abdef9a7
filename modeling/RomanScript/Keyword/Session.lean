import RomanScript.Keyword.Loading

/-!
A session with keywords. The table is loaded from the configured source when it is first needed and
kept from then on; a source that gives none is tried again the next time.
-/

namespace RomanScript.Keyword

/-- The configured source and the table that is kept, if one is. -/
structure Session where
  source : Source
  kept : Option Table

namespace Session

/-- A session starts with the usual source and keeps nothing. -/
def start : Session := ⟨.usual, none⟩

/-- A session with another source, which keeps what it has kept. -/
def configure (session : Session) (source : Source) : Session :=
  { session with source := source }

def forget (session : Session) : Session :=
  { session with kept := none }

/-- The table that is kept, or else the one that the source gives, which is kept from now on. -/
def table (session : Session) : Except LoadFailure Table × Session :=
  match session.kept with
  | some table => (.ok table, session)
  | none =>
    match session.source.load with
    | .ok table => (.ok table, { session with kept := some table })
    | .error failure => (.error failure, session)

end Session

end RomanScript.Keyword
