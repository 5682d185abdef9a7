/-!
Line ends. A file may end its lines with a line feed, a carriage return, or both; a text has line
feeds only.
-/

namespace RomanScript.Text

def unifyLineEnds : List Char → List Char
  | '\r' :: '\n' :: rest => '\n' :: unifyLineEnds rest
  | '\r' :: rest => '\n' :: unifyLineEnds rest
  | char :: rest => char :: unifyLineEnds rest
  | [] => []

end RomanScript.Text
