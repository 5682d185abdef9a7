/-!
Whole numbers in decimal notation: a minus sign before a negative number and no other sign, no
leading zeros.
-/

namespace RomanScript.Text

def decimal : Int → String
  | .ofNat magnitude => magnitude.repr
  | .negSucc below => "-" ++ (below + 1).repr

end RomanScript.Text
