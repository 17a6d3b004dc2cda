import Mathlib.Tactic.Common
import PromqlGuide.Proofs.Token.Seam
import PromqlGuide.Proofs.Text.Gap

/-!
# The first characters of tokens

Each kind of token has a class of characters that it can start with (`Terminal.opens`).  A token is
found only at such a character (`opens_of_length`), and no such character is blank
(`not_blank_of_opens`).  That different kinds of token start differently is what lets the grammar
choose between its alternatives.
-/
namespace PromqlGuide

open Text

namespace Terminal

/-- Whether one of some words starts with a variant of a character. -/
def opensWord (words : List (List Char)) (c : Char) : Bool :=
  words.any fun w => w.head?.any fun a => foldsTo a c

/-- Whether a token of a kind can start with a character. -/
def opens : Terminal → Char → Bool
  | number, c | timestamp, c => isDigit c || c == '.' || foldsTo 'i' c || foldsTo 'n' c
  | string, c => c == '"' || c == '\'' || c == '\x60'
  | duration, c => isDigit c
  | labelName, c | functionName, c => isNameStart c
  | metricName, c => isMetricStart c
  | matchOperator, c => c == '=' || c == '!'
  | aggregationOperator, c => opensWord aggregationOperators c
  | startOrEnd, c => foldsTo 's' c || foldsTo 'e' c
  | keyword k, c => opensWord [k.letters] c
  | symbol s, c => s.letters.head? == some c

/-! ### Tokens are found at their first characters -/

/-- A text that starts with one of some words starts with a variant of its first character. -/
lemma opensWord_of_startsWithWord {words : List (List Char)} {w cs : List Char} (hmem : w ∈ words)
    (hne : w ≠ []) (h : startsWithWord w cs = true) :
    ∃ c rest, cs = c :: rest ∧ opensWord words c = true := by
  cases w with
  | nil => exact absurd rfl hne
  | cons a w =>
    cases cs with
    | nil => cases h
    | cons c rest =>
      simp only [startsWithWord, Bool.and_eq_true] at h
      exact ⟨c, rest, rfl, List.any_eq_true.2 ⟨a :: w, hmem, by simpa using h.1⟩⟩

/-- A literal starts with its first character. -/
lemma opens_of_literalLength {literal cs : List Char} {n : Nat} (hne : literal ≠ [])
    (h : literalLength? literal cs = some n) :
    ∃ c rest, cs = c :: rest ∧ literal.head? = some c := by
  unfold literalLength? at h
  split_ifs at h with hp
  obtain ⟨t, rfl⟩ := List.isPrefixOf_iff_prefix.1 hp
  cases literal with
  | nil => exact absurd rfl hne
  | cons a literal => exact ⟨a, literal ++ t, rfl, rfl⟩

/-- A run starts with a character that may start it. -/
lemma opens_of_runLength {start part : Char → Bool} {cs : List Char} {n : Nat}
    (h : Name.runLength? start part cs = some n) :
    ∃ c rest, cs = c :: rest ∧ start c = true := by
  cases cs with
  | nil => cases h
  | cons c rest =>
    simp only [Name.runLength?] at h
    split_ifs at h with hc
    exact ⟨c, rest, rfl, hc⟩

/-- What a reader of one character takes starts with a character of the class. -/
lemma opens_of_one {p : Char → Bool} {next : Number.Reader} {cs : List Char} {n : Nat}
    (h : Number.one p next cs = some n) : ∃ c rest, cs = c :: rest ∧ p c = true := by
  cases cs with
  | nil => cases h
  | cons c rest =>
    simp only [Number.one] at h
    split_ifs at h with hc
    exact ⟨c, rest, rfl, hc⟩

/-- A number starts with a character that numbers can start with. -/
lemma opens_of_numberLength {cs : List Char} {n : Nat} (h : Number.tokenLength? cs = some n) :
    ∃ c rest, cs = c :: rest ∧ number.opens c = true := by
  have first : ∀ {p : Char → Bool} {next : Number.Reader} {m : Nat},
      Number.one p next cs = some m → (∀ c, p c = true → number.opens c = true) →
      ∃ c rest, cs = c :: rest ∧ number.opens c = true := by
    intro p next m hone hp
    obtain ⟨c, rest, rfl, hc⟩ := opens_of_one hone
    exact ⟨c, rest, rfl, hp c hc⟩
  rcases eq_some_of_orElse h with h | h
  · refine first h fun c hc => ?_
    rcases foldsTo_cases hc with rfl | ⟨hmem, -⟩
    · decide
    · exact absurd hmem (by decide)
  rcases eq_some_of_orElse h with h | h
  · rcases eq_some_of_orElse h with h | h
    · exact first h fun c hc => by simp [opens, hc]
    · exact first h fun c hc => by simp_all [opens]
  rcases eq_some_of_orElse h with h | h <;> exact first h fun c hc => by simp [opens, hc]

/-- A duration starts with a digit. -/
lemma opens_of_durationLength {cs : List Char} {n : Nat} (h : Duration.tokenLength? cs = some n) :
    ∃ c rest, cs = c :: rest ∧ isDigit c = true := by
  unfold Duration.tokenLength? at h
  rw [Duration.tokenRun.eq_def] at h
  split at h
  · cases h
  · simp at h
  · next c rest _ =>
    split_ifs at h with hdigit hrun
    · exact ⟨c, rest, rfl, hdigit⟩
    · simp at hrun

/-- A string starts with a quote. -/
lemma opens_of_stringLength {cs : List Char} {n : Nat} (h : Quoted.tokenLength? cs = some n) :
    ∃ c rest, cs = c :: rest ∧ string.opens c = true := by
  cases cs with
  | nil => cases h
  | cons c rest =>
    refine ⟨c, rest, rfl, ?_⟩
    simp only [Quoted.tokenLength?] at h
    split_ifs at h with hquote hraw
    · rcases hquote with rfl | rfl <;> decide
    · subst hraw; decide

/-- A token is found only where a character stands that it can start with. -/
theorem opens_of_length {t : Terminal} {cs : List Char} {n : Nat} (h : t.length? cs = some n) :
    ∃ c rest, cs = c :: rest ∧ t.opens c = true := by
  cases t with
  | number => exact opens_of_numberLength h
  | timestamp => exact opens_of_numberLength h
  | string => exact opens_of_stringLength h
  | duration => exact opens_of_durationLength h
  | labelName => exact opens_of_runLength h
  | metricName =>
    simp only [length?, Name.metricLength?] at h
    split_ifs at h
    exact opens_of_runLength h
  | functionName =>
    simp only [length?, Name.functionLength?] at h
    split_ifs at h
    split at h
    · cases h
    · next hname => exact opens_of_runLength hname
  | matchOperator =>
    obtain ⟨literal, hmem, hliteral⟩ := List.exists_of_findSome?_eq_some h
    have hne : ∀ l ∈ matchOperators, l ≠ [] := by decide
    obtain ⟨c, rest, rfl, hc⟩ := opens_of_literalLength (hne literal hmem) hliteral
    refine ⟨c, rest, rfl, ?_⟩
    have hhead : ∀ l ∈ matchOperators, l.head? = some '=' ∨ l.head? = some '!' := by decide
    rcases hhead literal hmem with hl | hl <;> rw [hl] at hc <;> cases hc <;> decide
  | aggregationOperator =>
    obtain ⟨w, hmem, hw⟩ := List.exists_of_findSome?_eq_some h
    have hne : ∀ v ∈ aggregationOperators, v ≠ [] := by decide
    exact opensWord_of_startsWithWord hmem (hne w hmem) (Name.startsWithWord_of_wordLength hw)
  | startOrEnd =>
    rcases startOrEnd_eq_some_iff.1 h with h | h <;>
    · obtain ⟨word, s₁, s₂, rest, rfl, hlen, hword, -⟩ := Name.emptyCallLength_eq_some_iff.1 h
      cases word with
      | nil => cases hlen
      | cons c word =>
        simp only [startsWithWord, Bool.and_eq_true] at hword
        exact ⟨c, _, rfl, by simp [opens, hword.1]⟩
  | keyword k =>
    exact opensWord_of_startsWithWord List.mem_cons_self (keyword_letters_ne_nil k)
      (Name.startsWithWord_of_wordLength h)
  | symbol s =>
    obtain ⟨c, rest, rfl, hc⟩ := opens_of_literalLength (symbol_letters_ne_nil s) h
    exact ⟨c, rest, rfl, by simp [opens, hc]⟩

/-- A token by itself starts with a character that its kind can start with. -/
lemma opens_of_spells {t : Terminal} {w : List Char} (h : t.spells w = true) :
    ∃ c rest, w = c :: rest ∧ t.opens c = true := by
  have hne := ne_nil_of_spells h
  unfold spells at h
  split at h
  · obtain ⟨c, rest, heq, hc⟩ := opens_of_length (beq_iff_eq.1 h)
    cases w with
    | nil => exact absurd rfl hne
    | cons d w =>
      cases heq
      exact ⟨c, w, rfl, hc⟩
  · exact opens_of_length (beq_iff_eq.1 h)

/-- Variants of letters are no digits and no points. -/
lemma not_numeral_of_foldsTo {a c : Char} (ha : a ∈ smallLetters) (h : foldsTo a c = true) :
    isDigit c = false ∧ c ≠ '.' := by
  have small : ∀ b ∈ smallLetters, isDigit b = false ∧ b ≠ '.' := by decide +kernel
  have upper : ∀ b ∈ smallLetters, isDigit b.toUpper = false ∧ b.toUpper ≠ '.' := by decide +kernel
  have variants : ∀ d ∈ ['\u0130', '\u0131', '\u017f', '\u212a'], isDigit d = false ∧ d ≠ '.' := by
    decide +kernel
  rcases foldsTo_cases h with rfl | ⟨-, rfl | ⟨-, rfl | rfl⟩ | ⟨-, rfl⟩ | ⟨-, rfl⟩⟩
  · exact small c ha
  · exact upper a ha
  all_goals exact variants _ (by decide)

/-- A number starts with no variants of letters but those of `inf` and `nan`. -/
lemma letter_of_opens_number {a c : Char} (ha : a ∈ smallLetters) (h : foldsTo a c = true)
    (hc : number.opens c = true) : a = 'i' ∨ a = 'n' := by
  have letters : ∀ b ∈ smallLetters, isSmall b = true := by decide
  have hplain := not_numeral_of_foldsTo ha h
  simp only [opens, hplain, Bool.or_eq_true, beq_iff_eq, Bool.false_eq_true, false_or] at hc
  rw [← smallForm_of_foldsTo (letters a ha) h]
  rcases hc with hc | hc
  · exact Or.inl (smallForm_of_foldsTo (by decide) hc)
  · exact Or.inr (smallForm_of_foldsTo (by decide) hc)

/-! ### First characters are visible -/

/-- What starts a small word in some letter case is a character of words. -/
lemma isWordPart_of_opensWord {words : List (List Char)}
    (hwords : ∀ w ∈ words, isSmallWord w = true) {c : Char} (h : opensWord words c = true) :
    isWordPart c = true := by
  obtain ⟨w, hmem, hw⟩ := List.any_eq_true.1 h
  have hsmall := hwords w hmem
  cases w with
  | nil => cases hw
  | cons a w =>
    simp only [isSmallWord, List.all_cons, Bool.and_eq_true] at hsmall
    exact isWordPart_of_foldsTo hsmall.1 (by simpa using hw)

/-- The characters besides digits and characters of words that tokens start with. -/
def openingSigns : List Char :=
  ['.', '"', '\'', '\x60', '=', '!', '+', '-', '*', '/', '%', '^', '<', '>', '@']

/-- A token starts with a character of a word, a digit, or a sign. -/
theorem opens_cases {t : Terminal} {c : Char} (h : t.opens c = true) :
    isWordPart c = true ∨ isDigit c = true ∨ c ∈ openingSigns := by
  have folded : ∀ a, isSmall a = true → foldsTo a c = true → isWordPart c = true :=
    fun a ha hc => isWordPart_of_foldsTo ha hc
  have started : ∀ d, isMetricStart d = true → isWordPart d = true :=
    fun d hd => isWordPart_of_isMetricPart (isMetricPart_of_isMetricStart hd)
  have numeral : number.opens c = true → isWordPart c = true ∨ isDigit c = true ∨
      c ∈ openingSigns := by
    intro hc
    simp only [opens, Bool.or_eq_true, beq_iff_eq] at hc
    rcases hc with ((hc | rfl) | hc) | hc
    · exact Or.inr (Or.inl hc)
    · exact Or.inr (Or.inr (by decide))
    · exact Or.inl (folded 'i' (by decide) hc)
    · exact Or.inl (folded 'n' (by decide) hc)
  cases t with
  | number => exact numeral h
  | timestamp => exact numeral h
  | string =>
    simp only [opens, Bool.or_eq_true, beq_iff_eq] at h
    rcases h with (rfl | rfl) | rfl <;> exact Or.inr (Or.inr (by decide))
  | duration => exact Or.inr (Or.inl h)
  | labelName => exact Or.inl (started c (isMetricStart_of_isNameStart h))
  | functionName => exact Or.inl (started c (isMetricStart_of_isNameStart h))
  | metricName => exact Or.inl (started c h)
  | matchOperator =>
    simp only [opens, Bool.or_eq_true, beq_iff_eq] at h
    rcases h with rfl | rfl <;> exact Or.inr (Or.inr (by decide))
  | aggregationOperator =>
    exact Or.inl (isWordPart_of_opensWord isSmallWord_aggregationOperators h)
  | startOrEnd =>
    simp only [opens, Bool.or_eq_true] at h
    rcases h with h | h
    · exact Or.inl (folded 's' (by decide) h)
    · exact Or.inl (folded 'e' (by decide) h)
  | keyword k =>
    refine Or.inl (isWordPart_of_opensWord (fun w hw => ?_) h)
    rw [List.mem_singleton.1 hw]
    exact isSmallWord_keyword k
  | symbol s =>
    refine Or.inr (Or.inr ?_)
    have hc : s.letters.head? = some c := by simpa [opens] using h
    cases s <;> cases hc <;> decide

/-- No token starts with whitespace or a comment mark. -/
theorem not_blank_of_opens {t : Terminal} {c : Char} (h : t.opens c = true) :
    isSpace c = false ∧ c ≠ '#' := by
  rcases opens_cases h with hc | hc | hc
  · constructor
    · by_contra hspace
      simp [not_isWordPart_of_isSpace (Bool.not_eq_false _ ▸ hspace)] at hc
    · rintro rfl
      revert hc; decide
  · constructor
    · by_contra hspace
      simp [not_isDigit_of_isSpace (Bool.not_eq_false _ ▸ hspace)] at hc
    · rintro rfl
      revert hc; decide
  · have signs : ∀ d ∈ openingSigns, isSpace d = false ∧ d ≠ '#' := by decide
    exact signs c hc

end Terminal

end PromqlGuide
