/-!
# Blank characters

A character is blank if it has the Unicode property White_Space.  Settings and option values may be
surrounded by blanks, and words in them are compared without regard to the case of ASCII letters.
-/

namespace TapeMachine.Text

/-- The characters of the property White_Space. -/
def isBlank (c : Char) : Bool :=
  let n := c.toNat
  (0x09 ≤ n && n ≤ 0x0D) || n = 0x20 || n = 0x85 || n = 0xA0 || n = 0x1680 ||
    (0x2000 ≤ n && n ≤ 0x200A) || n = 0x2028 || n = 0x2029 || n = 0x202F || n = 0x205F ||
    n = 0x3000

/-- Removes the characters at the end that satisfy `p`. -/
def dropEndWhile (p : Char → Bool) (text : List Char) : List Char :=
  (text.reverse.dropWhile p).reverse

def trim (text : List Char) : List Char :=
  dropEndWhile isBlank (text.dropWhile isBlank)

/-- The text without surrounding blanks and with ASCII letters in lower case, which is how the words
of settings are compared. -/
def word (text : String) : String :=
  String.ofList ((trim text.toList).map Char.toLower)

end TapeMachine.Text
