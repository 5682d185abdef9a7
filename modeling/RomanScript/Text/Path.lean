/-!
Paths of files: names of folders and at last of a file, with slashes between them.
-/

namespace RomanScript.Text

/-- How many slashes a path keeps at its beginning: one, or exactly two if there are exactly two. -/
def leadingSlashes : List Char → Nat
  | '/' :: '/' :: '/' :: _ => 1
  | '/' :: '/' :: _ => 2
  | '/' :: _ => 1
  | _ => 0

/-- The plain form of a path: neither empty names nor single dots stand in it, and what has no names
is the current folder. -/
def plainPath (path : String) : String :=
  let names := (path.toList.splitOn '/').filter fun name => !name.isEmpty && name != ['.']
  let start := List.replicate (leadingSlashes path.toList) '/'
  let plain := start ++ List.intercalate ['/'] names
  if plain.isEmpty then "." else String.ofList plain

end RomanScript.Text
