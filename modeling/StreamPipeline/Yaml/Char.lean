/-!
# Character classes of YAML 1.1

The classes that the writer and the reader share. `finish` stands behind the last character of a
text, so that a look at the next character always finds one; `isAllowed` keeps it out of the text
itself.
-/

namespace StreamPipeline.Yaml

/-- The character that stands behind the end of a text. -/
def finish : Char := '\x00'

/-- The line breaks of YAML 1.1. -/
def isBreak (c : Char) : Bool :=
  c == '\n' || c == '\r' || c.toNat == 0x85 || c.toNat == 0x2028 || c.toNat == 0x2029

/-- Space or tab. -/
def isBlank (c : Char) : Bool := c == ' ' || c == '\t'

/-- Blank, break or end: what separates tokens. -/
def isGap (c : Char) : Bool := isBlank c || isBreak c || c == finish

/-- Break or end. -/
def endsLine (c : Char) : Bool := isBreak c || c == finish

/-- The mark of byte order. -/
def isByteOrderMark (c : Char) : Bool := c.toNat == 0xFEFF

/-- The characters that a text may hold at all. -/
def isAllowed (c : Char) : Bool :=
  let n := c.toNat
  n == 9 || n == 10 || n == 13 || (0x20 ≤ n && n ≤ 0x7E) || n == 0x85
    || (0xA0 ≤ n && n ≤ 0xD7FF) || (0xE000 ≤ n && n ≤ 0xFFFD) || 0x10000 ≤ n

/-- The characters that are written as themselves. -/
def isPrintable (c : Char) : Bool :=
  let n := c.toNat
  n == 10 || (0x20 ≤ n && n ≤ 0x7E) || (0xA0 ≤ n && n ≤ 0xD7FF)
    || (0xE000 ≤ n && n ≤ 0xFFFD && n != 0xFEFF) || 0x10000 ≤ n

/-- Letters, digits, dash and low line: the characters of names and handles. -/
def isWord (c : Char) : Bool := c.isAlphanum || c == '-' || c == '_'

/-- The characters of a tag, without the flow indicators. -/
def isTagChar (c : Char) : Bool :=
  isWord c || [';', '/', '?', ':', '@', '&', '=', '+', '$', '.', '%', '!', '~', '*', '\'', '(',
    ')'].contains c

/-- The characters of which each starts something else than a plain scalar. -/
def isIndicator (c : Char) : Bool :=
  ['#', ',', '[', ']', '\x7b', '\x7d', '&', '*', '!', '|', '>', '\'', '"', '%', '@',
    '\x60'].contains c

/-- The flow indicators that end a plain scalar inside brackets. -/
def isFlowIndicator (c : Char) : Bool := [',', '[', ']', '\x7b', '\x7d'].contains c

/-- The value of a hexadecimal digit. -/
def hexDigit? (c : Char) : Option Nat :=
  if c.isDigit then some (c.toNat - '0'.toNat)
  else if 'a' ≤ c ∧ c ≤ 'f' then some (c.toNat - 'a'.toNat + 10)
  else if 'A' ≤ c ∧ c ≤ 'F' then some (c.toNat - 'A'.toNat + 10)
  else none

/-- What may be written may be read. -/
theorem isAllowed_of_isPrintable {c : Char} (h : isPrintable c = true) : isAllowed c = true := by
  simp only [isPrintable, isAllowed, Bool.or_eq_true, Bool.and_eq_true, beq_iff_eq, bne_iff_ne,
    decide_eq_true_eq] at h ⊢
  omega

end StreamPipeline.Yaml
