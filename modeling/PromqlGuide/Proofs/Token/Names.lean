import PromqlGuide.Proofs.Text.Folded
import PromqlGuide.Proofs.Token.Seam

/-!
# Names and words

Infinity and not-a-number are written as words.  A name of a metric is read as a number exactly if
it is one of these words, in any letter case (`Name.isNumber_iff`).

The names of metrics are kept apart from the words of operators (`Name.metricName_spells_iff`), and
the names of functions from the aggregation operators (`Name.functionName_spells_iff`).
-/
namespace PromqlGuide

open Text

namespace Number

variable {w cs : List Char} {n : Nat}

/-- A word with no name character behind it starts the text and ends there. -/
lemma startsWithWord_of_word (h : word w boundary cs = some n) :
    startsWithWord w cs = true ∧ endsBefore isWordPart (cs.drop w.length) = true := by
  induction w generalizing cs n with
  | nil =>
    simp only [word, boundary] at h
    split_ifs at h with hends
    exact ⟨rfl, hends⟩
  | cons a w ih =>
    cases cs with
    | nil => cases h
    | cons c cs =>
      simp only [word, one] at h
      split_ifs at h with hc
      obtain ⟨m, hm, -⟩ := Option.map_eq_some_iff.1 h
      obtain ⟨hstarts, hends⟩ := ih hm
      exact ⟨by simp [startsWithWord, hc, hstarts], hends⟩

/-- A word in some letter case is read where the text is over behind it. -/
lemma word_of_folded (h : Folded w cs) : (word w boundary cs).isSome = true := by
  induction h with
  | nil => rfl
  | cons hc _ ih => simpa [word, one, hc] using ih

end Number

namespace Name

variable {name : List Char}

/-- The words that stand for numbers. -/
def numberWords : List (List Char) := [['i', 'n', 'f'], ['n', 'a', 'n']]

/-- Whether a name is read as a number. -/
def IsNumber (name : List Char) : Prop := ∃ w ∈ numberWords, Folded w name

instance (name : List Char) : Decidable (IsNumber name) :=
  inferInstanceAs (Decidable (∃ w ∈ numberWords, Folded w name))

/-- A run of name characters starts with a character for that and goes on with characters of
names. -/
lemma parts_of_runLength {start part : Char → Bool} (hstart : ∀ c, start c = true → part c = true)
    (h : runLength? start part name = some name.length) :
    ∃ c cs, name = c :: cs ∧ start c = true ∧ ∀ d ∈ name, part d = true := by
  cases name with
  | nil => cases h
  | cons c cs =>
    simp only [runLength?] at h
    split_ifs at h with hc
    have hprefix := List.takeWhile_prefix (l := cs) part
    have hwhole : cs.takeWhile part = cs := hprefix.eq_of_length (by simpa using h)
    refine ⟨c, cs, rfl, hc, List.forall_mem_cons.2 ⟨hstart c hc, ?_⟩⟩
    exact hwhole ▸ List.all_eq_true.1 List.all_takeWhile

/-- A text spells a metric name exactly if it is one run of the characters of metric names and no
reserved word starts it. -/
lemma metricName_spells_iff_startsWith : Terminal.metricName.spells name = true ↔
    runLength? isMetricStart isMetricPart name = some name.length ∧
      startsWithReserved (Keyword.reserved.map Keyword.letters) name = false := by
  have hlength : Terminal.metricName.spells name = true ↔
      metricLength? (Keyword.reserved.map Keyword.letters) name = some name.length := beq_iff_eq
  rw [hlength, metricLength?]
  split_ifs with hreserved <;> simp [hreserved]

/-- The name of a metric starts with a character for that and goes on with characters of such
names. -/
lemma metricParts_of_spells (h : Terminal.metricName.spells name = true) :
    ∃ c cs, name = c :: cs ∧ isMetricStart c = true ∧ ∀ d ∈ name, isMetricPart d = true :=
  parts_of_runLength (fun _ => isMetricPart_of_isMetricStart)
    (metricName_spells_iff_startsWith.1 h).1

/-- A word that starts a text of some characters, with none of them behind it, is the whole text. -/
lemma folded_of_endsBefore {p : Char → Bool} {w : List Char} (hparts : ∀ d ∈ name, p d = true)
    (hstarts : startsWithWord w name = true) (hends : endsBefore p (name.drop w.length) = true) :
    Folded w name := by
  have hnil : name.drop w.length = [] := by
    cases hrest : name.drop w.length with
    | nil => rfl
    | cons d ds =>
      have hd : d ∈ name := List.mem_of_mem_drop (i := w.length) (by simp [hrest])
      rw [hrest, endsBefore, hparts d hd] at hends
      cases hends
  have hle := List.drop_eq_nil_iff.1 hnil
  exact folded_of_startsWithWord hstarts (Nat.le_antisymm hle (startsWithWord_length hstarts))

/-- A text of name characters is read as a word exactly if it is this word, but for the letter
case. -/
lemma isSome_word_iff {w : List Char} (hparts : ∀ d ∈ name, isMetricPart d = true) :
    (Number.word w Number.boundary name).isSome = true ↔ Folded w name := by
  refine ⟨fun hsome => ?_, Number.word_of_folded⟩
  obtain ⟨n, hn⟩ := Option.isSome_iff_exists.1 hsome
  obtain ⟨hstarts, hends⟩ := Number.startsWithWord_of_word hn
  exact folded_of_endsBefore (fun d hd => isWordPart_of_isMetricPart (hparts d hd)) hstarts hends

/-- What starts like the name of a metric is no number that is written with digits. -/
lemma number_of_isMetricStart {c : Char} (hstart : isMetricStart c = true) (cs : List Char) :
    Number.tokenLength? (c :: cs) = (Number.word ['i', 'n', 'f'] Number.boundary (c :: cs) <|>
      Number.word ['n', 'a', 'n'] Number.boundary (c :: cs)) := by
  have hdigit : isDigit c = false := by
    by_contra hdigit
    have hname := not_isNameStart_of_isDigit (eq_true_of_ne_false hdigit)
    simp only [isMetricStart, hname, Bool.false_or, beq_iff_eq] at hstart
    rw [hstart] at hdigit
    exact hdigit (by decide)
  have hzero : foldsTo '0' c = false := by
    by_contra hzero
    obtain rfl : c = '0' := by simpa [foldsTo] using eq_true_of_ne_false hzero
    exact absurd hstart (by decide)
  have hpoint : (c == '.') = false := by
    by_contra hpoint
    obtain rfl := beq_iff_eq.1 (eq_true_of_ne_false hpoint)
    exact absurd hstart (by decide)
  simp [Number.tokenLength?, Number.either, Number.hexadecimal, Number.decimal, Number.many1,
    Number.word, Number.one, hdigit, hzero, hpoint]

/-- The name of a metric is read as a number exactly if it is one of the words for numbers. -/
theorem isNumber_iff (h : Terminal.metricName.spells name = true) :
    IsNumber name ↔ Number.tokenLength? name ≠ none := by
  obtain ⟨c, cs, rfl, hstart, hparts⟩ := metricParts_of_spells h
  rw [number_of_isMetricStart hstart, ← Option.isSome_iff_ne_none, IsNumber]
  simp [numberWords, isSome_word_iff hparts]

/-! ### Names that are no reserved words -/

/-- A name is taken for one of some words exactly if it is this word, but for the letter case. -/
lemma startsWithReserved_iff {words : List (List Char)}
    (hparts : ∀ d ∈ name, isMetricPart d = true) :
    startsWithReserved words name = true ↔ ∃ w ∈ words, Folded w name := by
  rw [startsWithReserved, List.any_eq_true]
  constructor
  · rintro ⟨w, hw, h⟩
    obtain ⟨hstarts, hends⟩ := Bool.and_eq_true_iff.1 h
    exact ⟨w, hw, folded_of_endsBefore hparts hstarts hends⟩
  · rintro ⟨w, hw, hfolded⟩
    have hnil : name.drop w.length = [] := by rw [hfolded.length_eq, List.drop_length]
    exact ⟨w, hw, by rw [startsWithWord_of_folded hfolded, hnil]; rfl⟩

/-- The name of a metric is a run of characters of such names and no reserved word. -/
theorem metricName_spells_iff : Terminal.metricName.spells name = true ↔
    runLength? isMetricStart isMetricPart name = some name.length ∧
      ¬∃ w ∈ Keyword.reserved.map Keyword.letters, Folded w name := by
  rw [metricName_spells_iff_startsWith]
  refine and_congr_right fun h => ?_
  obtain ⟨-, -, -, -, hparts⟩ := parts_of_runLength (fun _ => isMetricPart_of_isMetricStart) h
  rw [← startsWithReserved_iff hparts, Bool.not_eq_true]

/-- The name of a function is a label name and no aggregation operator. -/
theorem functionName_spells_iff : Terminal.functionName.spells name = true ↔
    Terminal.labelName.spells name = true ∧ ¬∃ w ∈ aggregationOperators, Folded w name := by
  have hlabel : Terminal.labelName.spells name = true ↔ labelLength? name = some name.length :=
    beq_iff_eq
  have hwhole : Terminal.functionName.spells name = true ↔
      startsWithReserved aggregationOperators name = false ∧
      labelLength? name = some name.length := by
    by_cases hne : name = []
    · subst hne
      exact iff_of_false (by decide) (by decide)
    · have hopens : opensCall ['('] = true := by decide
      refine beq_iff_eq.trans ((functionLength_append_iff hne
        Terminal.isSmallWord_aggregationOperators).trans ?_)
      rw [hopens, and_iff_left rfl]
  rw [hwhole, hlabel, and_comm]
  refine and_congr_right fun h => ?_
  obtain ⟨-, -, -, -, hparts⟩ := parts_of_runLength (fun _ => isNamePart_of_isNameStart) h
  rw [← startsWithReserved_iff fun d hd => isMetricPart_of_isNamePart (hparts d hd),
    Bool.not_eq_true]

end Name

end PromqlGuide
