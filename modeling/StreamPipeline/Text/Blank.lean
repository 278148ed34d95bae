/-!
# Blank characters

The characters of Unicode's property White_Space, and a text without those at its two ends.
-/

namespace StreamPipeline.Text

/-- Whether a character has Unicode's property White_Space. -/
def isBlank (c : Char) : Bool :=
  let n := c.toNat
  (9 ≤ n && n ≤ 13) || n == 0x20 || n == 0x85 || n == 0xA0 || n == 0x1680
    || (0x2000 ≤ n && n ≤ 0x200A) || n == 0x2028 || n == 0x2029 || n == 0x202F || n == 0x205F
    || n == 0x3000

/-- The characters between the blanks at the two ends. -/
def trimChars (cs : List Char) : List Char :=
  ((cs.dropWhile isBlank).reverse.dropWhile isBlank).reverse

/-- The text between the blanks at its two ends. -/
def trim (s : String) : String := String.ofList (trimChars s.toList)

end StreamPipeline.Text
