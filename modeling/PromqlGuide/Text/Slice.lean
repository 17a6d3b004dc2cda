/-!
Parts of a text by position: slices, lines, and the excerpt that points at a position.

Main statement: a slice inside the text has the length of its range (`length_slice`).
-/
namespace PromqlGuide.Text

/-- The characters from `start` up to but not including `stop`; what lies behind the end of the
text is left out. -/
def slice (cs : List Char) (start stop : Nat) : List Char := (cs.drop start).take (stop - start)

/-- A slice that ends in the text is as long as its positions say. -/
theorem length_slice {cs : List Char} {start stop : Nat} (h : stop ≤ cs.length) :
    (slice cs start stop).length = stop - start := by
  simp only [slice, List.length_take, List.length_drop]
  omega

/-- The text without its first and its last character. -/
def inner (cs : List Char) : List Char := (cs.drop 1).dropLast

/-- How many line ends lie before a position. -/
def lineNumber (cs : List Char) (position : Nat) : Nat := (cs.take position).count '\n'

/-- Where the line of a position starts: behind the last line end before it. -/
def lineStart (cs : List Char) (position : Nat) : Nat :=
  (cs.take position).length - ((cs.take position).reverse.takeWhile (· != '\n')).length

/-- How far a position lies behind the start of its line. -/
def column (cs : List Char) (position : Nat) : Nat := position - lineStart cs position

/-- The line of a position, up to the first line end at or after it. -/
def lineAt (cs : List Char) (position : Nat) : List Char :=
  slice cs (lineStart cs position)
    (position + ((cs.drop position).takeWhile (· != '\n')).length)

/-- The line of a position and, below it, a caret under the position's column. -/
def caretExcerpt (cs : List Char) (position : Nat) : List Char :=
  lineAt cs position ++ '\n' :: List.replicate (column cs position) ' ' ++ ['^']

end PromqlGuide.Text
