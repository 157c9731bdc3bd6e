import QuadraticProgram.Text.Blank

/-! # Lines of text

A line ends at a line feed, at the other controls that move to a new line, at an information
separator down to that of records, and at the line and paragraph separators.
-/

namespace QuadraticProgram.Text

/-- The first and last code points of the runs of characters that end a line. -/
def lineEndRuns : List (Nat × Nat) :=
  [(0x0a, 0x0d), (0x1c, 0x1e), (0x85, 0x85), (0x2028, 0x2029)]

/-- The lines of a text that are not empty. -/
def nonemptyLines (s : String) : List String :=
  ((s.toList.splitBy fun a b => inRuns lineEndRuns a = inRuns lineEndRuns b).filter fun run =>
    !run.any (inRuns lineEndRuns)).map String.ofList

end QuadraticProgram.Text
