import PromqlGuide.Proofs.Query.Answers
import PromqlGuide.Proofs.Text.Lines

/-!
# The caret under a syntax error

An excerpt of a query shows the line of a position and a caret below the position's column.  Line
and column are those of the lines that the query is split into, and they are the two numbers that
the message about a syntax error ends with (`Query.caret_of_position`).
-/
namespace PromqlGuide

open Text

/-- A message about a rejected query ends with the line and the column. -/
lemma Stuck.message_at (stuck : Stuck) (query : List Char) : ∃ what : String, stuck.message query =
    s!"{what} at {lineNumber query stuck.position}:{column query stuck.position}" := by
  unfold Stuck.message
  dsimp only
  split
  · exact ⟨"expected " ++ _, rfl⟩
  · exact ⟨_, rfl⟩

namespace Query

/-- Whether an excerpt of a query and a message about it point at a position: the excerpt is the
line in which the position stands and, below it, a caret behind as many spaces as the position's
column, and the message ends with the number of the line and with the column. -/
def PointsAt (query : List Char) (position : Nat) (excerpt : List Char) (message : String) : Prop :=
  ∃ number column line, StandsAt query position number column line ∧
    excerpt = line ++ '\n' :: List.replicate column ' ' ++ ['^'] ∧
    ∃ what : String, message = s!"{what} at {number}:{column}"

/-- The excerpt and the message for where reading got stuck point there. -/
lemma pointsAt_stuck {query : List Char} (stuck : Stuck) (h : stuck.position ≤ query.length) :
    PointsAt query stuck.position (caretExcerpt query stuck.position) (stuck.message query) :=
  ⟨_, _, _, standsAt_of_le h, rfl, stuck.message_at query⟩

/-- For every position in a query, the excerpt and every message about what was expected there point
at the position.  Where a query is rejected at a position, the report shows an excerpt and the only
record a message and the same excerpt, which point at that position. -/
theorem caret_of_position (limits : Limits) (query : List Char) :
    (∀ position ≤ query.length, ∀ expected, PointsAt query position (caretExcerpt query position)
      (Stuck.message ⟨position, expected⟩ query)) ∧
    ∀ failure position, (parseChars limits query).outcome = .error failure →
      failure.position? = some position →
      ∃ excerpt message, PointsAt query position excerpt message ∧
        failure.report query = "Invalid query: Parse error in query\n" ++ String.ofList excerpt ∧
        (parseChars limits query).records =
          [s!"Syntax error at {position}: {message}\n" ++ String.ofList excerpt] := by
  constructor
  · intro position hposition expected
    exact pointsAt_stuck ⟨position, expected⟩ hposition
  · intro failure position houtcome hfailure
    obtain rfl := Failure.position?_eq_some_iff.1 hfailure
    obtain ⟨stuck, hread, rfl⟩ := outcome_eq_rejected_iff.1 houtcome
    refine ⟨_, _, pointsAt_stuck stuck (Reading.position_le_of_rejected hread), rfl, ?_⟩
    unfold parseChars
    rw [hread]
    rfl

/-- The text of `a +` and the end of its line. -/
def openSum : List Char := ['a', ' ', '+', '\n']

/-- In the query `a +` with a line end behind it, an operand is missing: it is rejected on the line
end, and the last position stands at the start of the empty second line. -/
theorem caret_openSum :
    4 ≤ openSum.length ∧ (parseChars .usual openSum).outcome = .error (.rejected 3) ∧
      PointsAt openSum 4 ['\n', '^'] (Stuck.message ⟨4, []⟩ openSum) ∧
      ∃ excerpt message, PointsAt openSum 3 excerpt message ∧
        (Failure.rejected 3).report openSum =
          "Invalid query: Parse error in query\n" ++ String.ofList excerpt ∧
        (parseChars .usual openSum).records =
          [s!"Syntax error at {3}: {message}\n" ++ String.ofList excerpt] := by
  have hrejected : (parseChars .usual openSum).outcome = .error (.rejected 3) := rfl
  have hcaret := caret_of_position .usual openSum
  have hlast := hcaret.1 4 (by decide) []
  exact ⟨by decide, hrejected, hlast, hcaret.2 _ 3 hrejected rfl⟩

end Query

end PromqlGuide
