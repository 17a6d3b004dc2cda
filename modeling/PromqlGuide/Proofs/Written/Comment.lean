import PromqlGuide.Proofs.Token.Scan
import PromqlGuide.Proofs.Written.Lexeme

/-!
# Comments in a query

Where a comment stands among the lexemes of a query.  The scanner passes every lexeme from outside
of comments and strings to outside, so a comment mark at which it stands outside is in the gap of
some lexeme, however the query is divided into lexemes (`Lexeme.exists_gap_of_comment`).
-/
namespace PromqlGuide

open Text ScanState

/-- Every lexeme is scanned from outside to outside. -/
lemma Lexical.isScanned_of_spells {x : Lexical} (hx : x.isUsed = true) {w : List Char}
    (h : x.spells w = true) : IsScanned w := by
  cases x with
  | token t => exact Terminal.isScanned_of_spells h
  | mark c =>
    rw [beq_iff_eq.1 (show (w == [c]) = true from h)]
    have hquiet : ∀ d ∈ marks, ∀ e ∈ [d], e ∉ openers := by decide
    exact isScanned_of_quiet (hquiet c (of_decide_eq_true hx))

namespace Lexeme

/-- The scanner passes the text of a lexeme. -/
lemma Proper.isScanned {l : Lexeme} (h : l.Proper) : IsScanned l.text :=
  Lexical.isScanned_of_spells h.2.1 h.2.2

/-- Behind lexemes the scanner stands outside. -/
lemma scan_writtenAll {ls : List Lexeme} (h : ∀ l ∈ ls, l.Proper) :
    outside.scan (writtenAll ls) = outside := by
  induction ls with
  | nil => rfl
  | cons l ls ih =>
    have hl := h l List.mem_cons_self
    rw [writtenAll_cons, scan_append, scan_append, scan_of_isGap hl.1, hl.isScanned.1]
    exact ih fun m hm => h m (List.mem_cons_of_mem l hm)

/-- A comment mark at which the scanner stands outside is in the gap of a lexeme, or behind all. -/
lemma exists_gap_of_mark {ls : List Lexeme} {tail before rest : List Char}
    (hls : ∀ l ∈ ls, l.Proper) (hscan : outside.scan before = outside)
    (heq : writtenAll ls ++ tail = before ++ '#' :: rest) :
    (∃ ls' l ms gap more, ls = ls' ++ l :: ms ∧ before = writtenAll ls' ++ gap ∧
        l.gap = gap ++ '#' :: more ∧ isGap gap = true) ∨
      ∃ gap, before = writtenAll ls ++ gap ∧ tail = gap ++ '#' :: rest := by
  induction ls generalizing before with
  | nil => exact Or.inr ⟨before, rfl, heq⟩
  | cons l ls ih =>
    have hl := hls l List.mem_cons_self
    simp only [writtenAll_cons, List.append_assoc] at heq
    -- The mark is in the gap of the first lexeme, or in its text, or behind it.
    rcases List.append_eq_append_iff.1 heq with ⟨within, rfl, htext⟩ | ⟨more, hgap, hmark⟩
    · have hwithin : outside.scan within = outside := by
        rwa [scan_append, scan_of_isGap hl.1] at hscan
      have behind : ∀ before', within = l.text ++ before' →
          writtenAll ls ++ tail = before' ++ '#' :: rest →
          (∃ ls' m ms gap more, l :: ls = ls' ++ m :: ms ∧
              l.gap ++ within = writtenAll ls' ++ gap ∧ m.gap = gap ++ '#' :: more ∧
              isGap gap = true) ∨
            ∃ gap, l.gap ++ within = writtenAll (l :: ls) ++ gap ∧ tail = gap ++ '#' :: rest := by
        rintro before' rfl heq'
        rw [scan_append, hl.isScanned.1] at hwithin
        rcases ih (fun m hm => hls m (List.mem_cons_of_mem l hm)) hwithin heq' with
          ⟨ls', m, ms, gap, more, rfl, rfl, hm, hgap⟩ | ⟨gap, rfl, htail⟩
        · exact Or.inl ⟨l :: ls', m, ms, gap, more, rfl, by simp, hm, hgap⟩
        · exact Or.inr ⟨gap, by simp, htail⟩
      rcases List.append_eq_append_iff.1 htext with ⟨before', hbefore, hmore⟩ | ⟨more, hword, hmark⟩
      · exact behind before' hbefore hmore
      · cases more with
        | nil => exact behind [] (by simpa using hword.symm) (by simpa using hmark.symm)
        | cons c more =>
          obtain ⟨rfl, -⟩ := List.cons.inj hmark
          exact absurd hwithin (hl.isScanned.2 within more hword)
    · cases more with
      | nil =>
        have hvisible := hl.visible (writtenAll ls ++ tail)
        rw [← List.nil_append (l.text ++ _), ← hmark] at hvisible
        cases hvisible
      | cons c more =>
        obtain ⟨rfl, -⟩ := List.cons.inj hmark
        exact Or.inl ⟨[], l, ls, before, more, rfl, rfl, hgap, isGap_of_scan (hgap ▸ hl.1) hscan⟩

/-- A comment in front of visible text is at the end of the gap of a lexeme. -/
theorem exists_gap_of_comment {ls : List Lexeme} {tail before comment after : List Char}
    (hls : ∀ l ∈ ls, l.Proper) (htail : isTail tail = true) (hscan : outside.scan before = outside)
    (hcomment : '\n' ∉ comment) (hvisible : startsVisible after = true) (hafter : after ≠ [])
    (heq : writtenAll ls ++ tail = before ++ ('#' :: comment ++ '\n' :: after)) :
    ∃ ls' l ms gap, ls = ls' ++ l :: ms ∧ l.gap = gap ++ ('#' :: comment ++ ['\n']) ∧
      isGap gap = true ∧ before = writtenAll ls' ++ gap ∧
      after = l.text ++ (writtenAll ms ++ tail) := by
  rcases exists_gap_of_mark hls hscan heq with
    ⟨ls', l, ms, gap, more, rfl, rfl, hl, hgap⟩ | ⟨gap, rfl, rfl⟩
  · have hlexeme := hls l (by simp)
    have hmore : closesBlank true more = true := by
      have hwhole := hlexeme.1
      rwa [hl, isGap, isGap_append_left hgap] at hwhole
    have htext : '#' :: comment ++ '\n' :: after =
        '#' :: more ++ (l.text ++ (writtenAll ms ++ tail)) := by
      simp only [writtenAll_append, writtenAll_cons, List.append_assoc, hl] at heq
      exact (List.append_cancel_left (List.append_cancel_left heq)).symm
    obtain ⟨gap', rfl, hgap'⟩ := isGap_behind_comment hcomment hmore (List.cons.inj htext).2
    have hrest : after = gap' ++ (l.text ++ (writtenAll ms ++ tail)) := by
      simpa using htext
    -- No blank text is left between the comment and the visible text behind it.
    cases gap' with
    | nil => exact ⟨ls', l, ms, gap, rfl, by simp [hl], hgap, rfl, hrest⟩
    | cons c gap' =>
      rw [hrest] at hvisible
      simp only [List.cons_append, startsVisible, Bool.and_eq_true, Bool.not_eq_true',
        bne_iff_ne] at hvisible
      rcases head_of_isGap hgap' with hspace | hmark
      · rw [hspace] at hvisible
        cases hvisible.1
      · exact absurd hmark hvisible.2
  · have hbehind : outside.scan gap = outside := by
      rwa [scan_append, scan_writtenAll hls] at hscan
    have hclosed : isGap (gap ++ ('#' :: comment ++ ['\n'])) = true :=
      isGap_append (isGap_of_isTail htail hbehind) (isGap_comment hcomment)
    have hlength := blankLength_append hclosed hvisible
    have hwhole : blankLength (gap ++ ('#' :: comment ++ '\n' :: after)) =
        (gap ++ ('#' :: comment ++ '\n' :: after)).length := of_decide_eq_true htail
    have hpos := List.length_pos_iff.2 hafter
    simp only [List.append_assoc, List.cons_append, List.nil_append] at hlength hwhole
    rw [hlength] at hwhole
    simp only [List.length_append, List.length_cons, List.length_nil] at hwhole
    omega

end Lexeme

end PromqlGuide
