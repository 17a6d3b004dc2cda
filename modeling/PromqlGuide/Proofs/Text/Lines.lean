import Mathlib.Data.List.DropRight
import PromqlGuide.Text.Slice

/-!
# Lines and columns

The line ends of a text divide it into lines.  A position is found by line and column: the line that
is cut out around it is the one whose number is the number of line ends before it, and its column
says how far it lies behind the start of that line (`standsAt_of_le`).

The start of the line is searched for backwards and its end forwards.  Both searches are read as one
division of the text at the position: whole lines, the part of the line before the position, and the
rest.
-/
namespace PromqlGuide.Text

/-- The lines of a text: what its line ends divide it into. -/
def lines (cs : List Char) : List (List Char) := cs.splitOn '\n'

/-- How many characters lines take up, each with the line end behind it. -/
def extent : List (List Char) → Nat
  | [] => 0
  | line :: ls => line.length + 1 + extent ls

/-- A position in a text by line and column: so many line ends lie before it, the line of that
number is `line`, and the position lies `column` characters behind the start of that line, which is
where the lines before it have taken up their characters. -/
structure StandsAt (cs : List Char) (position number column : Nat) (line : List Char) : Prop where
  count_eq : (cs.take position).count '\n' = number
  line_eq : (lines cs)[number]? = some line
  position_eq : extent ((lines cs).take number) + column = position
  column_le : column ≤ line.length

variable {cs front rest : List Char} {position : Nat}

/-! ### Lines -/

/-- A line end in front of a text puts an empty line in front of its lines. -/
lemma lines_cons_newline (cs : List Char) : lines ('\n' :: cs) = [] :: lines cs := by
  simp [lines, List.splitOn_cons_eq_if_modifyHead]

/-- Any other character goes to the front of the first line. -/
lemma lines_cons {c : Char} (h : c ≠ '\n') (cs : List Char) :
    lines (c :: cs) = (lines cs).modifyHead (c :: ·) := by
  simp [lines, List.splitOn_cons_eq_if_modifyHead, h]

/-- A text is divided into lines at any of its line ends. -/
lemma lines_append_newline (front rest : List Char) :
    lines (front ++ '\n' :: rest) = lines front ++ lines rest :=
  List.splitOn_append_cons_self ..

/-- There is one line more than there are line ends. -/
lemma length_lines (cs : List Char) : (lines cs).length = cs.count '\n' + 1 := by
  induction cs with
  | nil => rfl
  | cons c cs ih =>
    by_cases hc : c = '\n'
    · simp [hc, lines_cons_newline, ih]
    · simp [lines_cons hc, ih, hc]

/-- The lines take up the text, and a line end behind the last of them. -/
lemma extent_lines (cs : List Char) : extent (lines cs) = cs.length + 1 := by
  induction cs with
  | nil => rfl
  | cons c cs ih =>
    obtain ⟨l, ls, hls⟩ := List.exists_cons_of_ne_nil (List.splitOn_ne_nil '\n' cs)
    have hls : lines cs = l :: ls := hls
    rw [hls] at ih
    by_cases hc : c = '\n'
    · rw [hc, lines_cons_newline, hls]
      simp only [extent, List.length_nil, List.length_cons] at ih ⊢
      omega
    · rw [lines_cons hc, hls]
      simp only [extent, List.modifyHead_cons, List.length_cons] at ih ⊢
      omega

/-- The first line reaches up to the first line end. -/
lemma head_lines (cs : List Char) : (lines cs)[0]? = some (cs.takeWhile (· != '\n')) := by
  induction cs with
  | nil => rfl
  | cons c cs ih =>
    by_cases hc : c = '\n'
    · simp [hc, lines_cons_newline]
    · simp [lines_cons hc, hc, ih]

/-- The lines in front of a place where a line starts. -/
lemma exists_lines_front (h : front = [] ∨ ∃ whole, front = whole ++ ['\n']) :
    ∃ before, before.length = front.count '\n' ∧ extent before = front.length ∧
      ∀ rest, lines (front ++ rest) = before ++ lines rest := by
  rcases h with rfl | ⟨whole, rfl⟩
  · exact ⟨[], rfl, rfl, fun rest => rfl⟩
  · refine ⟨lines whole, ?_, ?_, fun rest => ?_⟩
    · simp [length_lines]
    · simp [extent_lines]
    · rw [List.append_assoc, List.singleton_append, lines_append_newline]

/-! ### Positions -/

/-- What lies before a position ends with the part of its line that lies before it. -/
lemma exists_lineStart (cs : List Char) (position : Nat) : ∃ front inLine,
    cs.take position = front ++ inLine ∧ (∀ c ∈ inLine, (c != '\n') = true) ∧
      (front = [] ∨ ∃ whole, front = whole ++ ['\n']) ∧ lineStart cs position = front.length := by
  -- The search for a line end from the right divides the text where the line starts.
  set p : Char → Bool := (· != '\n')
  have happend : (cs.take position).rdropWhile p ++ (cs.take position).rtakeWhile p =
      cs.take position := List.rdropWhile_append_rtakeWhile
  have hinLine : ∀ c ∈ (cs.take position).rtakeWhile p, p c = true := fun _ =>
    List.mem_rtakeWhile_imp
  refine ⟨_, _, happend.symm, hinLine, ?_, ?_⟩
  · rcases List.eq_nil_or_concat' ((cs.take position).rdropWhile p) with hnil | ⟨whole, c, hc⟩
    · exact Or.inl hnil
    · have hlast := List.rdropWhile_last_not p (cs.take position) (hc ▸ by simp)
      simp only [hc, List.getLast_append_singleton] at hlast
      have hnewline : c = '\n' := by simpa [p] using hlast
      exact Or.inr ⟨whole, hnewline ▸ hc⟩
  · have hlength := congrArg List.length happend
    rw [List.length_append] at hlength
    have htail : ((cs.take position).rtakeWhile p).length =
        ((cs.take position).reverse.takeWhile p).length := List.length_reverse
    show (cs.take position).length - ((cs.take position).reverse.takeWhile p).length = _
    omega

/-- A position in a text stands in the line, and at the column, that are computed for it. -/
lemma standsAt_of_le (h : position ≤ cs.length) :
    StandsAt cs position (lineNumber cs position) (column cs position) (lineAt cs position) := by
  obtain ⟨front, inLine, htake, hinLine, hfront, hstart⟩ := exists_lineStart cs position
  have hcs : cs = front ++ (inLine ++ cs.drop position) := by
    rw [← List.append_assoc, ← htake, List.take_append_drop]
  have hlength : front.length + inLine.length = position := by
    have := congrArg List.length htake
    rw [List.length_append, List.length_take, Nat.min_eq_left h] at this
    exact this.symm
  have hcolumn : column cs position = inLine.length := by
    unfold column
    omega
  have hline : lineAt cs position = inLine ++ (cs.drop position).takeWhile (· != '\n') := by
    have hdrop : cs.drop front.length = inLine ++ cs.drop position := by
      conv_lhs => rw [hcs]
      exact List.drop_left
    have hstop : position + ((cs.drop position).takeWhile (· != '\n')).length - front.length =
        inLine.length + ((cs.drop position).takeWhile (· != '\n')).length := by
      omega
    rw [lineAt, slice, hstart, hdrop, hstop, List.take_length_add_append,
      ← List.prefix_iff_eq_take.1 (List.takeWhile_prefix _)]
  have hnumber : lineNumber cs position = front.count '\n' := by
    have : inLine.count '\n' = 0 := List.count_eq_zero.2 fun hmem => by simpa using hinLine _ hmem
    rw [lineNumber, htake, List.count_append, this, Nat.add_zero]
  obtain ⟨before, hbefore, hextent, hlines⟩ := exists_lines_front hfront
  have hcsLines : lines cs = before ++ lines (inLine ++ cs.drop position) := by
    conv_lhs => rw [hcs]
    exact hlines _
  refine ⟨rfl, ?_, ?_, ?_⟩
  · rw [hnumber, ← hbefore, hcsLines, List.getElem?_append_right (Nat.le_refl _), Nat.sub_self,
      head_lines, List.takeWhile_append_of_pos hinLine, hline]
  · rw [hnumber, ← hbefore, hcsLines, List.take_left, hextent, hcolumn, hlength]
  · rw [hcolumn, hline, List.length_append]
    exact Nat.le_add_right _ _

end PromqlGuide.Text
