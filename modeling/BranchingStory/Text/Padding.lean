/-!
# Padded text

Fixed-width columns.  A text that is already as wide as its column is left
alone, so padding never cuts.  Widths count characters.
-/

namespace BranchingStory.Text

/-- The text with `fill` before it, up to the width. -/
def padLeft (width : Nat) (fill : Char) (s : String) : String :=
  String.ofList (s.toList.leftpad width fill)

/-- The text with `fill` after it, up to the width. -/
def padRight (width : Nat) (fill : Char) (s : String) : String :=
  String.ofList (s.toList.rightpad width fill)

/-- A count in decimal with at least three digits. -/
def threeDigits (n : Nat) : String := padLeft 3 '0' n.repr

theorem toList_padLeft (width : Nat) (fill : Char) (s : String) :
    (padLeft width fill s).toList =
      List.replicate (width - s.toList.length) fill ++ s.toList := by
  simp [padLeft, List.leftpad]

example : threeDigits 7 = "007" := by decide
example : threeDigits 1234 = "1234" := by decide
example : padRight 4 ' ' "ab" = "ab  " := by decide

end BranchingStory.Text
