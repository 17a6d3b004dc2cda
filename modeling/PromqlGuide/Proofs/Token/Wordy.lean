import Mathlib.Tactic.Common
import PromqlGuide.Proofs.Token.Opening

/-!
# Tokens that are words

Names, keywords and the numbers `inf` and `nan` are made of characters that continue a word, and
none follows them.  A reader that looks for a word therefore finds such a token as a whole or not at
all (`Name.eq_length_of_wordLength`), and the reader of label names finds it as a whole or stops
inside it (`Name.label_in_word`).
-/
namespace PromqlGuide

open Text

/-- Whether all characters of a text continue a word. -/
def isWord (w : List Char) : Bool := w.all isWordPart

namespace Name

/-- A small word in any letter case has only characters of words. -/
lemma isWord_of_startsWithWord {word w : List Char} (hword : isSmallWord word = true)
    (h : startsWithWord word w = true) (hlen : word.length = w.length) : isWord w = true := by
  induction word generalizing w with
  | nil =>
    obtain rfl := List.length_eq_zero_iff.1 hlen.symm
    rfl
  | cons a word ih =>
    cases w with
    | nil => cases h
    | cons c w =>
      simp only [isSmallWord, List.all_cons, Bool.and_eq_true] at hword
      simp only [startsWithWord, Bool.and_eq_true] at h
      have hc := isWordPart_of_foldsTo hword.1 h.1
      have hw := ih hword.2 h.2 (by simpa using hlen)
      simpa [isWord, hc] using hw

/-- What is read as a small word has only characters of words. -/
lemma isWord_of_wordLength {word w : List Char} (hword : isSmallWord word = true)
    (h : wordLength? word w = some w.length) : isWord w = true :=
  isWord_of_startsWithWord hword (startsWithWord_of_wordLength h) (wordLength_bounds h).1.symm

/-- Behind the start of a word a word goes on. -/
lemma eq_length_of_endsBefore {w : List Char} {n : Nat} (hw : isWord w = true) (hn : n ≤ w.length)
    (h : endsBefore isWordPart (w.drop n) = true) : n = w.length := by
  cases hdrop : w.drop n with
  | nil => exact Nat.le_antisymm hn (List.drop_eq_nil_iff.1 hdrop)
  | cons c rest =>
    have hc := List.all_eq_true.1 hw c (List.mem_of_mem_drop (hdrop ▸ List.mem_cons_self))
    simp [hdrop, endsBefore, hc] at h

/-- In a word, a word is found as a whole. -/
lemma eq_length_of_wordLength {word w : List Char} {n : Nat} (hw : isWord w = true)
    (h : wordLength? word w = some n) : n = w.length := by
  obtain ⟨rfl, hle⟩ := wordLength_bounds h
  refine eq_length_of_endsBefore hw hle ?_
  unfold wordLength? at h
  split_ifs at h with hboth
  exact (Bool.and_eq_true_iff.1 hboth).2

/-- A run of characters of words has only such characters. -/
lemma isWord_of_runLength {start part : Char → Bool} {w : List Char}
    (hstart : ∀ c, start c = true → isWordPart c = true)
    (hpart : ∀ c, part c = true → isWordPart c = true)
    (h : runLength? start part w = some w.length) : isWord w = true := by
  cases w with
  | nil => rfl
  | cons c w =>
    simp only [runLength?] at h
    split_ifs at h with hc
    have hlen : (w.takeWhile part).length = w.length := by simpa using h
    have hall : w.takeWhile part = w := (List.takeWhile_prefix part).eq_of_length hlen
    simp only [isWord, List.all_cons, Bool.and_eq_true, List.all_eq_true]
    refine ⟨hstart c hc, fun d hd => hpart d ?_⟩
    rw [← hall] at hd
    exact List.all_eq_true.1 (List.all_takeWhile (p := part)) d hd

/-- What starts a name can stand in a word. -/
lemma isWordPart_of_isNameStart {c : Char} (h : isNameStart c = true) : isWordPart c = true :=
  isWordPart_of_isMetricPart (isMetricPart_of_isMetricStart (isMetricStart_of_isNameStart h))

/-- What stands in a name can stand in a word. -/
lemma isWordPart_of_isNamePart {c : Char} (h : isNamePart c = true) : isWordPart c = true :=
  isWordPart_of_isMetricPart (isMetricPart_of_isNamePart h)

/-- The reader of label names stops inside a word or at its end. -/
lemma label_in_word {w rest : List Char} {n : Nat} (hne : w ≠ [])
    (hrest : endsBefore isWordPart rest = true) (h : labelLength? (w ++ rest) = some n) :
    (n = w.length ∧ labelLength? w = some w.length) ∨
      (labelLength? w ≠ some w.length ∧ n < w.length ∧ ∃ c ∈ w, ∃ more,
        (w ++ rest).drop n = c :: more) := by
  have hname : endsBefore isNamePart rest = true :=
    endsBefore_mono (fun _ => isWordPart_of_isNamePart) hrest
  rw [labelLength?, runLength_append hne hname] at h
  have hle : n ≤ w.length := (runLength_advancing _ _ w n h).2
  rcases Nat.lt_or_eq_of_le hle with hlt | rfl
  · refine Or.inr ⟨?_, hlt, w[n], List.getElem_mem hlt, w.drop (n + 1) ++ rest, ?_⟩
    · intro hall
      have heq : some n = some w.length := h.symm.trans hall
      exact Nat.ne_of_lt hlt (Option.some.inj heq)
    · rw [List.drop_append_of_le_length hle, List.drop_eq_getElem_cons hlt, List.cons_append]
  · exact Or.inl ⟨rfl, h⟩

end Name

namespace Number

/-- A word read as a number ends where a keyword would. -/
lemma word_boundary (w cs : List Char) : word w boundary cs = Name.wordLength? w cs := by
  induction w generalizing cs with
  | nil => simp [word, boundary, Name.wordLength?, startsWithWord]
  | cons a w ih =>
    cases cs with
    | nil => rfl
    | cons c cs =>
      simp only [word, one, ih, Name.wordLength?, startsWithWord, List.length_cons,
        List.drop_succ_cons]
      by_cases hc : foldsTo a c = true
      · simp only [hc, if_true, Bool.true_and]
        split_ifs <;> rfl
      · simp [hc]

/-- The numbers that are words. -/
def words : List (List Char) := [['i', 'n', 'f'], ['n', 'a', 'n']]

/-- The numbers that are words are written small. -/
lemma isSmallWord_words : ∀ w ∈ words, isSmallWord w = true := by decide

/-- Where no digit and no point stands, a number is a word. -/
lemma tokenLength_eq_anyWordLength {c : Char} (hdigit : isDigit c = false) (hpoint : c ≠ '.')
    (cs : List Char) : tokenLength? (c :: cs) = Name.anyWordLength? words (c :: cs) := by
  have hzero : foldsTo '0' c = false := by
    by_contra hfold
    have hsmall := smallForm_of_foldsTo (a := '0') (by decide) (Bool.not_eq_false _ ▸ hfold)
    rcases foldsTo_cases (Bool.not_eq_false _ ▸ hfold) with rfl | ⟨hmem, -⟩
    · revert hdigit; decide
    · exact absurd hmem (by decide)
  have hhex : hexadecimal (c :: cs) = none := by simp [hexadecimal, word, one, hzero]
  have hdecimal : decimal (c :: cs) = none := by
    simp [decimal, either, many1, one, hdigit, hpoint]
  simp only [tokenLength?, either, hhex, hdecimal, word_boundary, Name.anyWordLength?, words,
    List.findSome?_cons, List.findSome?_nil]
  cases Name.wordLength? ['i', 'n', 'f'] (c :: cs) with
  | some n => rfl
  | none => cases Name.wordLength? ['n', 'a', 'n'] (c :: cs) <;> rfl

end Number

namespace Terminal

/-- Whether tokens of a kind are words, or numbers. -/
def isWordy : Terminal → Bool
  | number | timestamp | labelName | metricName | functionName | aggregationOperator | keyword _ =>
    true
  | _ => false

/-- Whether a text starts like a number that is no word. -/
def startsNumeral : List Char → Bool
  | [] => false
  | c :: _ => isDigit c || c == '.'

/-- What is read as one of a list of small words has only characters of words. -/
lemma isWord_of_anyWordLength {words : List (List Char)}
    (hwords : ∀ w ∈ words, isSmallWord w = true)
    {w : List Char} (h : Name.anyWordLength? words w = some w.length) : isWord w = true := by
  obtain ⟨v, hv, hlength⟩ := List.exists_of_findSome?_eq_some h
  exact Name.isWord_of_wordLength (hwords v hv) hlength

/-- A number is a word, or starts with a digit or a point. -/
lemma isWord_of_number {w : List Char} (h : Number.tokenLength? w = some w.length) :
    isWord w = true ∨ startsNumeral w = true := by
  cases w with
  | nil => exact Or.inl rfl
  | cons c w =>
    by_cases hstart : startsNumeral (c :: w) = true
    · exact Or.inr hstart
    · simp only [startsNumeral, Bool.or_eq_true, beq_iff_eq, not_or, Bool.not_eq_true] at hstart
      rw [Number.tokenLength_eq_anyWordLength hstart.1 hstart.2] at h
      exact Or.inl (isWord_of_anyWordLength Number.isSmallWord_words h)

/-- Names and keywords are words. -/
lemma isWord_of_name {t : Terminal} (ht : t.isWordy = true) (hnumber : t ≠ number)
    (htime : t ≠ timestamp) {w : List Char} (h : t.spells w = true) : isWord w = true := by
  have hlabel : ∀ {v : List Char}, Name.labelLength? v = some v.length →
    isWord v = true := fun hv =>
    Name.isWord_of_runLength (fun _ => Name.isWordPart_of_isNameStart)
      (fun _ => Name.isWordPart_of_isNamePart) hv
  cases t with
  | number => exact absurd rfl hnumber
  | timestamp => exact absurd rfl htime
  | labelName => exact hlabel (beq_iff_eq.1 h)
  | metricName =>
    have hlength := beq_iff_eq.1 h
    simp only [length?, Name.metricLength?] at hlength
    split_ifs at hlength
    exact Name.isWord_of_runLength
      (fun _ hc => isWordPart_of_isMetricPart (isMetricPart_of_isMetricStart hc))
      (fun _ => isWordPart_of_isMetricPart) hlength
  | functionName =>
    have hname := (Name.functionLength_append_iff (ne_nil_of_spells h)
      isSmallWord_aggregationOperators).1 (beq_iff_eq.1 h)
    exact hlabel hname.2.1
  | aggregationOperator =>
    exact isWord_of_anyWordLength isSmallWord_aggregationOperators (beq_iff_eq.1 h)
  | keyword k => exact Name.isWord_of_wordLength (isSmallWord_keyword k) (beq_iff_eq.1 h)
  | string | duration | matchOperator | startOrEnd | symbol s => cases ht

/-- Names, keywords and numbers are words or start like a number. -/
lemma isWord_of_spells {t : Terminal} (ht : t.isWordy = true) {w : List Char}
    (h : t.spells w = true) : isWord w = true ∨ startsNumeral w = true := by
  by_cases hnumber : t = number
  · subst hnumber
    exact isWord_of_number (beq_iff_eq.1 h)
  by_cases htime : t = timestamp
  · subst htime
    exact isWord_of_number (beq_iff_eq.1 h)
  exact Or.inl (isWord_of_name ht hnumber htime h)

/-- No character of a word follows names, keywords and numbers; behind a label name, no character of
a label name. -/
lemma endsBefore_of_stopsAt {t : Terminal} (ht : t.isWordy = true) {w rest : List Char}
    (h : t.stopsAt w rest = true) :
    endsBefore isNamePart rest = true ∧ (t ≠ labelName → endsBefore isWordPart rest = true) := by
  have both : endsBefore isWordPart rest = true →
      endsBefore isNamePart rest = true ∧ (t ≠ labelName → endsBefore isWordPart rest = true) :=
    fun hword => ⟨endsBefore_mono (fun _ => Name.isWordPart_of_isNamePart) hword, fun _ => hword⟩
  have continued : endsBefore Number.isContinued rest = true →
      endsBefore isWordPart rest = true :=
    endsBefore_mono fun c hc => by simp [Number.isContinued, hc]
  cases t with
  | number => exact both (continued h)
  | timestamp => exact both (continued h)
  | labelName => exact ⟨h, fun hne => absurd rfl hne⟩
  | metricName => exact both h
  | functionName => exact both (Name.endsBefore_of_opensCall h)
  | aggregationOperator => exact both h
  | keyword k => exact both h
  | string | duration | matchOperator | startOrEnd | symbol s => cases ht

end Terminal

end PromqlGuide
