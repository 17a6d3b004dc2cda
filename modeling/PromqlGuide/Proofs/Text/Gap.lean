import Mathlib.Tactic.Common
import PromqlGuide.Proofs.Text.Classes

/-!
# Gaps between the lexemes of a query

A *gap* is blank text with something visible behind it: whitespace and comments, where every comment
has the end of its line inside the gap.  Behind the last lexeme of a query a comment may also run to
the end of the text; such blank text is called a *tail*.

The reader that skips blank text takes exactly the gap in front of a visible text
(`blankLength_append`), and what it takes in front of more text is always a gap (`isGap_take`).
-/
namespace PromqlGuide.Text

/-- Whether a text is blank and no comment is open at its end; the first argument says that a
comment is open at its start. -/
def closesBlank : Bool → List Char → Bool
  | false, [] => true
  | true, [] => false
  | true, c :: rest => closesBlank (c != '\n') rest
  | false, c :: rest =>
    if isSpace c then closesBlank false rest
    else if c = '#' then closesBlank true rest
    else false

/-- Whether a text may stand between two lexemes. -/
def isGap (cs : List Char) : Bool := closesBlank false cs

/-- Whether a text may stand behind the last lexeme of a query. -/
def isTail (cs : List Char) : Bool := decide (blankLength cs = cs.length)

/-- Nothing is a gap. -/
@[simp] lemma isGap_nil : isGap [] = true := rfl

/-! ### Skipping a gap -/

/-- A blank run that closes ends where visible text begins. -/
lemma blankRun_append {inComment : Bool} {gap rest : List Char}
    (hgap : closesBlank inComment gap = true) (hrest : startsVisible rest = true) :
    blankRun inComment (gap ++ rest) = gap.length := by
  induction gap generalizing inComment with
  | nil =>
    cases inComment with
    | true => cases hgap
    | false =>
      cases rest with
      | nil => rfl
      | cons c cs =>
        simp only [startsVisible, Bool.and_eq_true, Bool.not_eq_true', bne_iff_ne] at hrest
        simp [blankRun, hrest]
  | cons c cs ih =>
    cases inComment with
    | true => simpa [blankRun] using ih hgap
    | false =>
      simp only [closesBlank] at hgap
      simp only [List.cons_append, blankRun, List.length_cons]
      split_ifs at hgap ⊢ with hspace hmark
      · rw [ih hgap]
      · rw [ih hgap]

/-- The blank text in front of a visible text is the whole gap. -/
lemma blankLength_append {gap rest : List Char} (hgap : isGap gap = true)
    (hrest : startsVisible rest = true) : blankLength (gap ++ rest) = gap.length :=
  blankRun_append hgap hrest

/-- What is left of a text with a gap in front, once blank text is skipped. -/
lemma drop_blankLength_append {gap rest : List Char} (hgap : isGap gap = true)
    (hrest : startsVisible rest = true) :
    (gap ++ rest).drop (blankLength (gap ++ rest)) = rest := by
  rw [blankLength_append hgap hrest, List.drop_left]

/-- A blank run in front of more text closes. -/
lemma closesBlank_take {inComment : Bool} {cs : List Char}
    (hrest : cs.drop (blankRun inComment cs) ≠ []) :
    closesBlank inComment (cs.take (blankRun inComment cs)) = true := by
  induction cs generalizing inComment with
  | nil => simp at hrest
  | cons c cs ih =>
    cases inComment with
    | true => simpa [blankRun, closesBlank] using ih (by simpa [blankRun] using hrest)
    | false =>
      simp only [blankRun] at hrest ⊢
      split_ifs at hrest ⊢ with hspace hmark
      · simpa [closesBlank, hspace] using ih (by simpa using hrest)
      · subst hmark
        simpa [closesBlank, hspace] using ih (by simpa using hrest)
      · rfl

/-- The blank text in front of more text is a gap. -/
lemma isGap_take {cs : List Char} (hrest : cs.drop (blankLength cs) ≠ []) :
    isGap (cs.take (blankLength cs)) = true := closesBlank_take hrest

/-! ### Joining gaps -/

/-- A gap may be continued by another one. -/
lemma closesBlank_append {inComment : Bool} {a b : List Char}
    (ha : closesBlank inComment a = true) (hb : isGap b = true) :
    closesBlank inComment (a ++ b) = true := by
  induction a generalizing inComment with
  | nil =>
    cases inComment with
    | true => cases ha
    | false => exact hb
  | cons c cs ih =>
    cases inComment with
    | true => exact ih ha
    | false =>
      simp only [List.cons_append, closesBlank] at ha ⊢
      split_ifs at ha ⊢ with hspace hmark
      · exact ih ha
      · exact ih ha

/-- Two gaps make one. -/
lemma isGap_append {a b : List Char} (ha : isGap a = true) (hb : isGap b = true) :
    isGap (a ++ b) = true := closesBlank_append ha hb

/-- Whitespace is a gap. -/
lemma isGap_of_isSpace {cs : List Char} (h : ∀ c ∈ cs, isSpace c = true) : isGap cs = true := by
  induction cs with
  | nil => rfl
  | cons c cs ih =>
    have htail := ih fun d hd => h d (List.mem_cons_of_mem c hd)
    simpa [isGap, closesBlank, h c List.mem_cons_self] using htail

/-- A comment and the end of its line are a gap. -/
lemma isGap_comment {comment : List Char} (h : '\n' ∉ comment) :
    isGap ('#' :: comment ++ ['\n']) = true := by
  have inside : ∀ cs : List Char, '\n' ∉ cs → closesBlank true (cs ++ ['\n']) = true := by
    intro cs hcs
    induction cs with
    | nil => rfl
    | cons c cs ih =>
      have hc : (c != '\n') = true := bne_iff_ne.2 fun hceq => hcs (hceq ▸ List.mem_cons_self)
      have htail := ih fun hmem => hcs (List.mem_cons_of_mem _ hmem)
      simpa only [List.cons_append, closesBlank, hc] using htail
  exact inside comment h

/-- A gap starts with whitespace or a comment mark, unless it is empty. -/
lemma head_of_isGap {c : Char} {cs : List Char} (h : isGap (c :: cs) = true) :
    isSpace c = true ∨ c = '#' := by
  simp only [isGap, closesBlank] at h
  split_ifs at h with hspace hmark
  · exact Or.inl hspace
  · exact Or.inr hmark

/-- A tail starts with whitespace or a comment mark, unless it is empty. -/
lemma head_of_isTail {c : Char} {cs : List Char} (h : isTail (c :: cs) = true) :
    isSpace c = true ∨ c = '#' := by
  have hlen : blankLength (c :: cs) = (c :: cs).length := of_decide_eq_true h
  simp only [blankLength, blankRun] at hlen
  split_ifs at hlen with hspace hmark
  · exact Or.inl hspace
  · exact Or.inr hmark

end PromqlGuide.Text
