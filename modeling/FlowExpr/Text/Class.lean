import FlowExpr.Text.Alphabetic
import FlowExpr.Text.Unprintable

/-!
# Character classes

The classes that names, words, blanks and quoted texts are made of. ASCII is decided by
comparison; everything beyond it by the range tables.

* `isBlank`: white space of any script, the line breaks included;
* `isAlphabetic`, `isAlphanumeric`: letters, and letters with numerals;
* `isWord`: letters, digits, marks, connectors and joiners;
* `isUnprintable`: what a quoted text has to escape by number.
-/

namespace FlowExpr.Text

/-- The character lies in one of the inclusive ranges. -/
def inRanges (ranges : List (Nat × Nat)) (c : Char) : Bool :=
  ranges.any fun r => r.1 ≤ c.toNat && c.toNat ≤ r.2

/-- The character is ASCII. -/
def isAscii (c : Char) : Bool := c.toNat < 0x80

/-- White space beyond ASCII. -/
def blankRanges : List (Nat × Nat) :=
  [(0x85, 0x85), (0xA0, 0xA0), (0x1680, 0x1680), (0x2000, 0x200A), (0x2028, 0x2029),
   (0x202F, 0x202F), (0x205F, 0x205F), (0x3000, 0x3000)]

/-- White space: tab to carriage return, the space, and the blanks of other scripts. -/
def isBlank (c : Char) : Bool :=
  if isAscii c then c == ' ' || (9 ≤ c.toNat && c.toNat ≤ 13)
  else inRanges blankRanges c

/-- ASCII letter. -/
def isAsciiLetter (c : Char) : Bool :=
  ('a' ≤ c && c ≤ 'z') || ('A' ≤ c && c ≤ 'Z')

/-- ASCII digit. -/
def isDigit (c : Char) : Bool := '0' ≤ c && c ≤ '9'

/-- Letter of any script. -/
def isAlphabetic (c : Char) : Bool :=
  if isAscii c then isAsciiLetter c else inRanges alphabeticRanges c

/-- Letter or numeral of any script. -/
def isAlphanumeric (c : Char) : Bool :=
  if isAscii c then isAsciiLetter c || isDigit c
  else inRanges alphabeticRanges c || inRanges numericRanges c

/-- Letter, digit, mark, connector or joiner, apart from those of the newest version of the
    standard. -/
def isWord (c : Char) : Bool :=
  if isAscii c then isAsciiLetter c || isDigit c || c == '_'
  else (inRanges alphabeticRanges c || inRanges wordMarkRanges c) && !inRanges newestRanges c

/-- Character that a quoted text writes by its number. -/
def isUnprintable (c : Char) : Bool :=
  if isAscii c then c.toNat < 0x20 || c.toNat == 0x7F else inRanges unprintableRanges c

/-! ## 1. Small facts -/

/-- A letter is alphanumeric. -/
theorem isAlphanumeric_of_isAlphabetic {c : Char} (h : isAlphabetic c = true) :
    isAlphanumeric c = true := by
  unfold isAlphabetic at h
  unfold isAlphanumeric
  split <;> simp_all

end FlowExpr.Text
