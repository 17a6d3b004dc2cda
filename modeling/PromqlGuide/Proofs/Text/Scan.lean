import PromqlGuide.Proofs.Text.Gap

/-!
# Scanning for comments and strings

A scanner that runs over a query from the left and only knows comments and strings.  Where it stands
inside neither, a comment mark starts a comment, whatever the grammar makes of the query.

Main statement: a gap that is cut where the scanner stands outside is a gap up to there
(`Text.isGap_of_scan`).
-/
namespace PromqlGuide.Text

/-- Where the scanner stands: outside of comments and strings, in a comment, in a string that a
quote closes and maybe behind a backslash there, or in a string between backticks. -/
inductive ScanState where
  | outside
  | comment
  | quoted (quote : Char) (escaped : Bool)
  | raw
  deriving Repr, DecidableEq

/-- The characters that start a comment or a string. -/
def openers : List Char := ['#', '"', '\'', '\x60']

namespace ScanState

/-- The scanner reads one character. -/
def step : ScanState → Char → ScanState
  | outside, c =>
    if c = '#' then comment
    else if c = '"' ∨ c = '\'' then quoted c false
    else if c = '\x60' then raw
    else outside
  | comment, c => if c = '\n' then outside else comment
  | quoted quote true, _ => quoted quote false
  | quoted quote false, c => if c = quote then outside else quoted quote (c == '\\')
  | raw, c => if c = '\x60' then outside else raw

/-- The scanner reads a text. -/
def scan (s : ScanState) (cs : List Char) : ScanState := cs.foldl step s

/-- The scanner stays where it is at the end of a text. -/
@[simp] lemma scan_nil (s : ScanState) : s.scan [] = s := rfl

/-- The scanner reads the first character, then the others. -/
@[simp] lemma scan_cons (s : ScanState) (c : Char) (cs : List Char) :
    s.scan (c :: cs) = (s.step c).scan cs := rfl

/-- The scanner reads one text, then the other. -/
@[simp] lemma scan_append (s : ScanState) (cs ds : List Char) :
    s.scan (cs ++ ds) = (s.scan cs).scan ds := List.foldl_append

/-- Outside of comments and strings only a character that opens one moves the scanner. -/
lemma step_outside {c : Char} (hc : c ∉ openers) : outside.step c = outside := by
  simp only [openers, List.mem_cons, List.not_mem_nil, or_false, not_or] at hc
  simp [step, hc]

/-- Outside, text without openers is passed over. -/
lemma scan_outside {cs : List Char} (h : ∀ c ∈ cs, c ∉ openers) : outside.scan cs = outside := by
  induction cs with
  | nil => rfl
  | cons c cs ih =>
    rw [scan_cons, step_outside (h c List.mem_cons_self)]
    exact ih fun d hd => h d (List.mem_cons_of_mem c hd)

end ScanState

open ScanState

/-- A class of characters without openers. -/
lemma not_mem_openers {p : Char → Bool} (hp : openers.any p = false) {c : Char} (hc : p c = true) :
    c ∉ openers := fun hmem => List.any_eq_false.1 hp c hmem hc

/-! ### Blank text -/

/-- Where the scanner stands in blank text. -/
def blankState (inComment : Bool) : ScanState := if inComment then comment else outside

/-- In a comment only the end of the line moves the scanner. -/
lemma step_comment (c : Char) : comment.step c = blankState (c != '\n') := by
  by_cases hc : c = '\n' <;> simp [step, blankState, hc]

/-- Whitespace outside of comments and strings does not move the scanner. -/
lemma step_space {c : Char} (h : isSpace c = true) : outside.step c = outside :=
  step_outside (not_mem_openers (p := isSpace) (by decide) h)

/-- Behind a gap, the scanner stands outside. -/
lemma scan_of_closesBlank {inComment : Bool} {cs : List Char}
    (h : closesBlank inComment cs = true) :
    (blankState inComment).scan cs = outside := by
  induction cs generalizing inComment with
  | nil =>
    cases inComment with
    | true => cases h
    | false => rfl
  | cons c cs ih =>
    cases inComment with
    | true =>
      have hstep : (blankState true).step c = blankState (c != '\n') := step_comment c
      rw [scan_cons, hstep]
      exact ih h
    | false =>
      simp only [closesBlank] at h
      split_ifs at h with hspace hmark
      · have hstep : (blankState false).step c = blankState false := step_space hspace
        rw [scan_cons, hstep]
        exact ih h
      · subst hmark
        exact ih h

/-- A gap leaves the scanner where it was. -/
lemma scan_of_isGap {gap : List Char} (h : isGap gap = true) : outside.scan gap = outside :=
  scan_of_closesBlank h

/-- Blank text that is cut where the scanner stands outside closes there. -/
lemma closesBlank_of_scan {inComment : Bool} {cs : List Char} (ds : List Char)
    (h : cs.length ≤ blankRun inComment (cs ++ ds))
    (hscan : (blankState inComment).scan cs = outside) : closesBlank inComment cs = true := by
  induction cs generalizing inComment with
  | nil =>
    cases inComment with
    | true => cases hscan
    | false => rfl
  | cons c cs ih =>
    rw [scan_cons] at hscan
    cases inComment with
    | true =>
      have hstep : (blankState true).step c = blankState (c != '\n') := step_comment c
      rw [hstep] at hscan
      exact ih (by simpa [blankRun] using h) hscan
    | false =>
      simp only [List.cons_append, blankRun, List.length_cons] at h
      simp only [closesBlank]
      split_ifs at h ⊢ with hspace hmark
      · have hstep : (blankState false).step c = blankState false := step_space hspace
        rw [hstep] at hscan
        exact ih (by omega) hscan
      · subst hmark
        exact ih (by omega) hscan
      · omega

/-- A gap that is cut where the scanner stands outside is a gap up to there. -/
theorem isGap_of_scan {cs ds : List Char} (h : isGap (cs ++ ds) = true)
    (hscan : outside.scan cs = outside) : isGap cs = true := by
  have hlength : blankLength (cs ++ ds ++ []) = (cs ++ ds).length := blankLength_append h rfl
  rw [List.append_nil] at hlength
  refine closesBlank_of_scan ds ?_ hscan
  rw [show blankRun false (cs ++ ds) = (cs ++ ds).length from hlength]
  simp

/-- The front of a blank text is a gap if the scanner stands in no comment behind it. -/
lemma isGap_of_isTail {cs ds : List Char} (h : isTail (cs ++ ds) = true)
    (hscan : outside.scan cs = outside) : isGap cs = true := by
  have hlength : blankLength (cs ++ ds) = (cs ++ ds).length := of_decide_eq_true h
  refine closesBlank_of_scan ds ?_ hscan
  rw [show blankRun false (cs ++ ds) = (cs ++ ds).length from hlength]
  simp

/-- What a gap goes on with behind another one is a gap. -/
lemma isGap_append_left {inComment : Bool} {a b : List Char} (ha : closesBlank inComment a = true) :
    closesBlank inComment (a ++ b) = isGap b := by
  induction a generalizing inComment with
  | nil =>
    cases inComment with
    | true => cases ha
    | false => rfl
  | cons c a ih =>
    cases inComment with
    | true => exact ih ha
    | false =>
      simp only [List.cons_append, closesBlank] at ha ⊢
      split_ifs at ha ⊢ with hspace hmark
      · exact ih ha
      · exact ih ha

/-- A gap that goes on with a comment goes on with the end of its line. -/
lemma isGap_behind_comment {comment gap more rest : List Char} (hcomment : '\n' ∉ comment)
    (h : closesBlank true gap = true) (heq : comment ++ '\n' :: rest = gap ++ more) :
    ∃ gap', gap = comment ++ '\n' :: gap' ∧ isGap gap' = true := by
  induction comment generalizing gap with
  | nil =>
    cases gap with
    | nil => cases h
    | cons c gap =>
      obtain ⟨rfl, -⟩ := List.cons.inj heq
      exact ⟨gap, rfl, h⟩
  | cons d comment ih =>
    cases gap with
    | nil => cases h
    | cons c gap =>
      obtain ⟨rfl, hmore⟩ := List.cons.inj heq
      have hd : (d != '\n') = true := bne_iff_ne.2 fun hnew => hcomment (hnew ▸ List.mem_cons_self)
      obtain ⟨gap', rfl, hgap'⟩ := ih (fun hmem => hcomment (List.mem_cons_of_mem d hmem))
        (by simpa only [closesBlank, hd] using h) hmore
      exact ⟨gap', rfl, hgap'⟩

end PromqlGuide.Text
