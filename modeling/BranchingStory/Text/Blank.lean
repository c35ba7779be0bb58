/-!
# Blank text

A text is blank if it holds nothing but characters with the Unicode property
White_Space.  The empty text is blank.  The table lists that property in full,
so the no-break space and the ideographic space count, and the zero-width space
does not.
-/

namespace BranchingStory.Text

/-- The code points with the property White_Space, as closed ranges. -/
def blankRanges : List (Nat × Nat) :=
  [(0x09, 0x0D), (0x20, 0x20), (0x85, 0x85), (0xA0, 0xA0), (0x1680, 0x1680),
   (0x2000, 0x200A), (0x2028, 0x2029), (0x202F, 0x202F), (0x205F, 0x205F), (0x3000, 0x3000)]

/-- The character has the property White_Space. -/
def isBlankChar (c : Char) : Bool :=
  blankRanges.any fun range => range.1 ≤ c.toNat && c.toNat ≤ range.2

/-- The text holds nothing but white space. -/
def isBlank (s : String) : Bool := s.toList.all isBlankChar

example : isBlank "" = true := by decide
example : isBlank " \t\u00a0\u3000" = true := by decide
example : isBlank "\u200b" = false := by decide
/-- The property has 25 code points. -/
example : (blankRanges.map fun range => range.2 + 1 - range.1).sum = 25 := by decide

end BranchingStory.Text
