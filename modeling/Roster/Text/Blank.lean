/-!
# Text.Blank — white space around a text

* `isBlank`: the twenty-five characters with the property White_Space.
* `trim`: a text without the blanks at its ends.
-/

namespace Roster

namespace Blank

/-- The character has the property White_Space. -/
def isBlank (c : Char) : Bool :=
  let n := c.toNat
  (0x09 ≤ n && n ≤ 0x0D) || n == 0x20 || n == 0x85 || n == 0xA0 || n == 0x1680 ||
    (0x2000 ≤ n && n ≤ 0x200A) || n == 0x2028 || n == 0x2029 || n == 0x202F || n == 0x205F ||
    n == 0x3000

/-- Characters without the blanks at the ends. -/
def trimChars (s : List Char) : List Char :=
  ((s.dropWhile isBlank).reverse.dropWhile isBlank).reverse

def trim (s : String) : String := String.ofList (trimChars s.toList)

/-- Whether nothing but blanks is in the text. -/
def isEmpty (s : String) : Bool := s.toList.all isBlank

end Blank

end Roster
