import Mathlib.Tactic.Common
import PromqlGuide.Token.Length
import PromqlGuide.Proofs.Text.SmallForm
import PromqlGuide.Proofs.Text.Classes

/-!
# Names and words at a seam

A *seam* is the place between a lexeme and the text behind it.  This file says for names, keywords
and aggregation operators when the reader stops exactly at the seam: what it finds in `cs ++ rest`
is what it finds in `cs` alone, if `rest` does not go on with a character of a word.
-/
namespace PromqlGuide.Name

open Text

/-! ### Words in any letter case -/

/-- A small word is read in front of no character of a word as at the end of the text. -/
lemma wordLength_append {w cs rest : List Char} (hw : isSmallWord w = true)
    (hrest : endsBefore isWordPart rest = true) :
    wordLength? w (cs ++ rest) = wordLength? w cs := by
  unfold wordLength?
  rw [startsWithWord_append_of_endsBefore hw hrest]
  cases hs : startsWithWord w cs with
  | false => rfl
  | true =>
    rw [List.drop_append_of_le_length (startsWithWord_length hs), endsBefore_append hrest]

/-- A word that reaches to the seam is over there. -/
lemma endsBefore_of_wordLength {w cs rest : List Char}
    (h : wordLength? w (cs ++ rest) = some cs.length) : endsBefore isWordPart rest = true := by
  have hlen : w.length = cs.length := (wordLength_bounds h).1.symm
  unfold wordLength? at h
  split_ifs at h with hw
  rw [hlen, List.drop_left] at hw
  exact (Bool.and_eq_true_iff.1 hw).2

/-- A list of small words is read in front of no character of a word as at the end of the text. -/
lemma anyWordLength_append {words : List (List Char)} {cs rest : List Char}
    (hw : ∀ w ∈ words, isSmallWord w = true) (hrest : endsBefore isWordPart rest = true) :
    anyWordLength? words (cs ++ rest) = anyWordLength? words cs := by
  unfold anyWordLength?
  induction words with
  | nil => rfl
  | cons w words ih =>
    simp only [List.findSome?_cons, wordLength_append (hw w List.mem_cons_self) hrest,
      ih fun v hv => hw v (List.mem_cons_of_mem _ hv)]

/-- No character of a word stands behind one of a list of words. -/
lemma endsBefore_of_anyWordLength {words : List (List Char)} {cs rest : List Char}
    (h : anyWordLength? words (cs ++ rest) = some cs.length) :
    endsBefore isWordPart rest = true := by
  obtain ⟨w, _, hw⟩ := List.exists_of_findSome?_eq_some h
  exact endsBefore_of_wordLength hw

/-- A word is found only at a text that starts with it. -/
lemma startsWithWord_of_wordLength {w cs : List Char} {n : Nat} (h : wordLength? w cs = some n) :
    startsWithWord w cs = true := by
  unfold wordLength? at h
  split_ifs at h with hw
  exact (Bool.and_eq_true_iff.1 hw).1

/-- Of two words neither of which starts with the other, a text starts with at most one. -/
lemma wordLength_eq_none_of_startsWithWord {u v cs : List Char} (hu : isSmallWord u = true)
    (hv : isSmallWord v = true) (huv : ¬ u <+: v) (hvu : ¬ v <+: u)
    (h : startsWithWord u cs = true) : wordLength? v cs = none := by
  cases hn : wordLength? v cs with
  | none => rfl
  | some n =>
    rcases prefix_or_prefix_of_startsWithWord hu hv h (startsWithWord_of_wordLength hn) with hp | hp
    · exact absurd hp huv
    · exact absurd hp hvu

/-! ### Names -/

/-- A run of name characters reaches to the seam exactly if it is one and the text behind the seam
does not continue it. -/
lemma runLength_append_iff {start part : Char → Bool} {cs rest : List Char} (hcs : cs ≠ []) :
    runLength? start part (cs ++ rest) = some cs.length ↔
      runLength? start part cs = some cs.length ∧ endsBefore part rest = true := by
  have run : ∀ ds : List Char, ((ds ++ rest).takeWhile part).length = ds.length ↔
      (ds.takeWhile part).length = ds.length ∧ endsBefore part rest = true := by
    intro ds
    induction ds with
    | nil => cases rest <;> simp [endsBefore, List.takeWhile_cons]
    | cons d ds ih => by_cases hd : part d = true <;> simp [hd, ih]
  cases cs with
  | nil => exact absurd rfl hcs
  | cons c cs =>
    by_cases hc : start c = true
    · simpa [runLength?, hc] using run cs
    · simp [runLength?, hc]

/-- A run is read in front of what cannot continue it as at the end of the text. -/
lemma runLength_append {start part : Char → Bool} {cs rest : List Char} (hcs : cs ≠ [])
    (hrest : endsBefore part rest = true) :
    runLength? start part (cs ++ rest) = runLength? start part cs := by
  have run : ∀ ds : List Char, ((ds ++ rest).takeWhile part).length =
    (ds.takeWhile part).length := by
    intro ds
    induction ds with
    | nil =>
      cases rest with
      | nil => rfl
      | cons r rest => simp_all [endsBefore]
    | cons d ds ih => by_cases hd : part d = true <;> simp [hd, ih]
  cases cs with
  | nil => exact absurd rfl hcs
  | cons c cs => simp [runLength?, run cs]

/-- Whether a reserved word stands at the start of a text, is seen before the seam. -/
lemma startsWithReserved_append {words : List (List Char)} {cs rest : List Char}
    (hw : ∀ w ∈ words, isSmallWord w = true) (hrest : endsBefore isWordPart rest = true) :
    startsWithReserved words (cs ++ rest) = startsWithReserved words cs := by
  have hmetric : endsBefore isMetricPart rest = true :=
    endsBefore_mono (fun _ => isWordPart_of_isMetricPart) hrest
  unfold startsWithReserved
  induction words with
  | nil => rfl
  | cons w words ih =>
    rw [List.any_cons, List.any_cons, ih fun v hv => hw v (List.mem_cons_of_mem _ hv),
      startsWithWord_append_of_endsBefore (hw w List.mem_cons_self) hrest]
    cases hs : startsWithWord w cs with
    | false => rfl
    | true =>
      rw [List.drop_append_of_le_length (startsWithWord_length hs), endsBefore_append hmetric]

/-- A metric name is read in front of no character of a word as at the end of the text. -/
lemma metricLength_append {reserved : List (List Char)} {cs rest : List Char} (hcs : cs ≠ [])
    (hw : ∀ w ∈ reserved, isSmallWord w = true) (hrest : endsBefore isWordPart rest = true) :
    metricLength? reserved (cs ++ rest) = metricLength? reserved cs := by
  have hmetric : endsBefore isMetricPart rest = true :=
    endsBefore_mono (fun _ => isWordPart_of_isMetricPart) hrest
  rw [metricLength?, metricLength?, startsWithReserved_append hw hrest,
    runLength_append hcs hmetric]

/-- A metric name that reaches to the seam is not continued there. -/
lemma endsBefore_of_metricLength {reserved : List (List Char)} {cs rest : List Char}
    (hcs : cs ≠ []) (h : metricLength? reserved (cs ++ rest) = some cs.length) :
    endsBefore isMetricPart rest = true := by
  unfold metricLength? at h
  split_ifs at h
  exact ((runLength_append_iff hcs).1 h).2

/-! ### Function names -/

/-- What opens a call goes on with whitespace or a parenthesis. -/
lemma endsBefore_of_opensCall {cs : List Char} (h : opensCall cs = true) :
    endsBefore isWordPart cs = true := by
  cases cs with
  | nil => rfl
  | cons c cs =>
    simp only [endsBefore, Bool.not_eq_true']
    cases hspace : isSpace c with
    | true => exact not_isWordPart_of_isSpace hspace
    | false =>
      simp only [opensCall, List.dropWhile_cons, hspace, Bool.false_eq_true, if_false] at h
      split at h
      · next heq =>
        cases heq
        decide
      · cases h

/-- A function name reaches to the seam exactly if it is a name that is not reserved, and a call
opens behind the seam. -/
lemma functionLength_append_iff {reserved : List (List Char)} {cs rest : List Char}
    (hcs : cs ≠ []) (hw : ∀ w ∈ reserved, isSmallWord w = true) :
    functionLength? reserved (cs ++ rest) = some cs.length ↔
      startsWithReserved reserved cs = false ∧ labelLength? cs = some cs.length ∧
        opensCall rest = true := by
  constructor
  · intro h
    unfold functionLength? at h
    split_ifs at h with hreserved
    split at h
    · cases h
    · next n hn =>
      split_ifs at h with hopens
      cases h
      rw [List.drop_left] at hopens
      refine ⟨?_, ((runLength_append_iff hcs).1 hn).1, hopens⟩
      rw [← startsWithReserved_append hw (endsBefore_of_opensCall hopens)]
      exact Bool.not_eq_true _ ▸ hreserved
  · rintro ⟨hreserved, hname, hopens⟩
    have hends := endsBefore_of_opensCall hopens
    have hpart : endsBefore isNamePart rest = true :=
      endsBefore_mono (fun _ hc => isWordPart_of_isMetricPart (isMetricPart_of_isNamePart hc)) hends
    have hlabel : labelLength? (cs ++ rest) = some cs.length :=
      (runLength_append_iff hcs).2 ⟨hname, hpart⟩
    simp [functionLength?, startsWithReserved_append hw hends, hreserved, hlabel, hopens]

/-! ### Words with empty parentheses -/

/-- Without the whitespace in front of it a text is what follows. -/
lemma dropWhile_isSpace_append {s cs : List Char} (hs : ∀ c ∈ s, isSpace c = true)
    (hcs : endsBefore isSpace cs = true) : (s ++ cs).dropWhile isSpace = cs := by
  rw [List.dropWhile_append_of_pos hs]
  cases cs with
  | nil => rfl
  | cons c cs => simp_all [endsBefore]

/-- What is read as a word with empty parentheses consists of the word, an opening and a closing
parenthesis, with whitespace before either. -/
lemma emptyCallLength_eq_some_iff {w cs : List Char} {n : Nat} :
    emptyCallLength? w cs = some n ↔
      ∃ word s₁ s₂ rest, cs = word ++ (s₁ ++ '(' :: (s₂ ++ ')' :: rest)) ∧
        word.length = w.length ∧ startsWithWord w word = true ∧ (∀ c ∈ s₁, isSpace c = true) ∧
        (∀ c ∈ s₂, isSpace c = true) ∧ n + rest.length = cs.length := by
  constructor
  · intro h
    unfold emptyCallLength? at h
    split_ifs at h with hword
    split at h
    · next inside hopen =>
      split at h
      · next rest hclose =>
        simp only [Option.some.injEq] at h
        have hlen := startsWithWord_length hword
        have houter := List.takeWhile_append_dropWhile (p := isSpace) (l := cs.drop w.length)
        have hinner := List.takeWhile_append_dropWhile (p := isSpace) (l := inside)
        rw [hopen] at houter
        rw [hclose] at hinner
        refine ⟨cs.take w.length, (cs.drop w.length).takeWhile isSpace, inside.takeWhile isSpace,
          rest, ?_, by simp [hlen], ?_,
          List.all_eq_true.1 List.all_takeWhile, List.all_eq_true.1 List.all_takeWhile, ?_⟩
        · rw [hinner, houter, List.take_append_drop]
        · rw [← List.take_append_drop w.length cs] at hword
          rwa [startsWithWord_append_of_length_le (by simp [hlen])] at hword
        · have hlast : rest.length ≤ cs.length := by
            have h₁ := congrArg List.length houter
            have h₂ := congrArg List.length hinner
            simp only [List.length_append, List.length_cons, List.length_drop] at h₁ h₂
            omega
          omega
      · cases h
    · cases h
  · rintro ⟨word, s₁, s₂, rest, rfl, hlen, hword, hs₁, hs₂, hn⟩
    have hstart : startsWithWord w (word ++ (s₁ ++ '(' :: (s₂ ++ ')' :: rest))) = true := by
      rwa [startsWithWord_append_of_length_le (by omega)]
    unfold emptyCallLength?
    rw [if_pos hstart, ← hlen, List.drop_left, dropWhile_isSpace_append hs₁ rfl]
    simp only [dropWhile_isSpace_append hs₂ (show endsBefore isSpace (')' :: rest) = true from rfl)]
    exact congrArg some (by omega)

/-- A word with empty parentheses is complete at the seam whatever follows. -/
lemma emptyCallLength_append_iff {w cs rest : List Char} :
    emptyCallLength? w (cs ++ rest) = some cs.length ↔ emptyCallLength? w cs = some cs.length := by
  simp only [emptyCallLength_eq_some_iff]
  constructor
  · rintro ⟨word, s₁, s₂, rest', heq, hlen, hword, hs₁, hs₂, hn⟩
    have hrest : rest'.length = rest.length := by simp at hn; omega
    have hsplit : cs ++ rest = (word ++ (s₁ ++ '(' :: (s₂ ++ [')']))) ++ rest' := by simp [heq]
    obtain ⟨rfl, rfl⟩ := List.append_inj' hsplit hrest.symm
    exact ⟨word, s₁, s₂, [], rfl, hlen, hword, hs₁, hs₂, rfl⟩
  · rintro ⟨word, s₁, s₂, rest', rfl, hlen, hword, hs₁, hs₂, hn⟩
    have hrest : rest' = [] := List.length_eq_zero_iff.1 (by omega)
    subst hrest
    exact ⟨word, s₁, s₂, rest, by simp, hlen, hword, hs₁, hs₂, by simp; omega⟩

end PromqlGuide.Name
