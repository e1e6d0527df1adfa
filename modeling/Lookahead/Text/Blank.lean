/-!
# Blank characters

The Unicode property White_Space: its twenty-five code points are what separates symbols on a line
and what may stand in front of a rule or a comment.
-/

namespace Lookahead.Text

/-- Whether a character has the property White_Space. -/
def isBlank (c : Char) : Bool :=
  let n := c.toNat
  (0x09 ≤ n && n ≤ 0x0D) || n == 0x20 || n == 0x85 || n == 0xA0 || n == 0x1680 ||
    (0x2000 ≤ n && n ≤ 0x200A) || n == 0x2028 || n == 0x2029 || n == 0x202F || n == 0x205F ||
    n == 0x3000

/-- The characters of a line from its first one that is not blank. -/
def dropBlanks (line : List Char) : List Char :=
  line.dropWhile isBlank

/-- A blank character in front of a line is dropped with the rest of its indentation. -/
theorem dropBlanks_cons_of_isBlank {c : Char} (h : isBlank c) (line : List Char) :
    dropBlanks (c :: line) = dropBlanks line := by
  simp [dropBlanks, h]

end Lookahead.Text
