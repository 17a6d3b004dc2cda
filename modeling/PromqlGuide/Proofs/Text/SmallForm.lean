import Mathlib.Tactic.Common
import PromqlGuide.Proofs.Text.Classes

/-!
# The small form of a character

Keywords are written small and are read in any letter case.  Every character has one *small form*,
and a character that folds to a letter of a keyword has this letter as its small form
(`smallForm_of_foldsTo`).  A text that starts with a word therefore has the word in front of its
small forms (`prefix_map_smallForm`), so two words at the start of one text agree as far as both
reach.
-/
namespace PromqlGuide.Text

/-- The small letters of ASCII. -/
def smallLetters : List Char :=
  ['a', 'b', 'c', 'd', 'e', 'f', 'g', 'h', 'i', 'j', 'k', 'l', 'm', 'n', 'o', 'p', 'q', 'r', 's',
    't', 'u', 'v', 'w', 'x', 'y', 'z']

/-- The characters besides small letters that words are written with. -/
def wordSigns : List Char := ['_', '0', '1', '2', '3', '4', '5', '6', '7', '8', '9']

/-- Whether a character may stand in a word that is read in any letter case. -/
def isSmall (c : Char) : Bool := decide (c ∈ smallLetters ++ wordSigns)

/-- The small letter that a character is a variant of; other characters are their own small form. -/
def smallForm (c : Char) : Char :=
  if c = '\u0130' ∨ c = '\u0131' then 'i'
  else if c = '\u017f' then 's'
  else if c = '\u212a' then 'k'
  else (smallLetters.find? fun a => a.toUpper == c).getD c

/-- The list of small letters has them all. -/
lemma mem_smallLetters_of_isLower {c : Char} (h : c.isLower = true) : c ∈ smallLetters := by
  have hbound : c.toNat < 123 := Nat.lt_succ_of_le (isLower_iff.1 h).2
  exact of_toNat_lt (p := fun c => c.isLower = true → c ∈ smallLetters) (by decide) hbound h

/-- A character folds to another one in one of these ways. -/
lemma foldsTo_cases {a c : Char} (h : foldsTo a c = true) :
    c = a ∨ (a ∈ smallLetters ∧
      (c = a.toUpper ∨ (a = 'i' ∧ (c = '\u0130' ∨ c = '\u0131')) ∨ (a = 's' ∧ c = '\u017f') ∨
        (a = 'k' ∧ c = '\u212a'))) := by
  simp only [foldsTo, Bool.or_eq_true, Bool.and_eq_true, beq_iff_eq, or_assoc] at h
  rcases h with h | ⟨hlower, h⟩
  · exact Or.inl h
  · exact Or.inr ⟨mem_smallLetters_of_isLower hlower, h⟩

/-- The small form of a variant of a letter is the letter. -/
lemma smallForm_of_foldsTo {a c : Char} (ha : isSmall a = true) (h : foldsTo a c = true) :
    smallForm c = a := by
  have self : ∀ b ∈ smallLetters ++ wordSigns, smallForm b = b := by decide
  have upper : ∀ b ∈ smallLetters, smallForm b.toUpper = b := by decide
  rcases foldsTo_cases h with rfl | ⟨hmem, rfl | ⟨rfl, rfl | rfl⟩ | ⟨rfl, rfl⟩ | ⟨rfl, rfl⟩⟩
  · exact self c (of_decide_eq_true ha)
  · exact upper a hmem
  all_goals decide

/-- A variant of a letter continues a word. -/
lemma isWordPart_of_foldsTo {a c : Char} (ha : isSmall a = true) (h : foldsTo a c = true) :
    isWordPart c = true := by
  have self : ∀ b ∈ smallLetters ++ wordSigns, isWordPart b = true := by decide
  have upper : ∀ b ∈ smallLetters, isWordPart b.toUpper = true := by decide
  rcases foldsTo_cases h with rfl | ⟨hmem, rfl | ⟨rfl, rfl | rfl⟩ | ⟨rfl, rfl⟩ | ⟨rfl, rfl⟩⟩
  · exact self c (of_decide_eq_true ha)
  · exact upper a hmem
  all_goals decide

/-! ### Words at the start of a text -/

/-- Whether a word is written small throughout. -/
def isSmallWord (word : List Char) : Bool := word.all isSmall

/-- A text that starts with a word has the word in front of its small forms. -/
lemma prefix_map_smallForm {word cs : List Char} (hword : isSmallWord word = true)
    (h : startsWithWord word cs = true) : word <+: cs.map smallForm := by
  induction word generalizing cs with
  | nil => exact List.nil_prefix
  | cons a word ih =>
    cases cs with
    | nil => cases h
    | cons c cs =>
      simp only [isSmallWord, List.all_cons, Bool.and_eq_true] at hword
      simp only [startsWithWord, Bool.and_eq_true] at h
      rw [List.map_cons, smallForm_of_foldsTo hword.1 h.1, List.cons_prefix_cons]
      exact ⟨rfl, ih hword.2 h.2⟩

/-- Two words at the start of one text agree as far as both reach. -/
lemma prefix_or_prefix_of_startsWithWord {u v cs : List Char} (hu : isSmallWord u = true)
    (hv : isSmallWord v = true) (hus : startsWithWord u cs = true)
    (hvs : startsWithWord v cs = true) : u <+: v ∨ v <+: u :=
  List.prefix_or_prefix_of_prefix (prefix_map_smallForm hu hus) (prefix_map_smallForm hv hvs)

/-- A word is looked for in the part of a text that is as long as the word. -/
lemma startsWithWord_append_of_length_le {word cs : List Char} (h : word.length ≤ cs.length)
    (rest : List Char) : startsWithWord word (cs ++ rest) = startsWithWord word cs := by
  induction word generalizing cs with
  | nil => rfl
  | cons a word ih =>
    cases cs with
    | nil => simp at h
    | cons c cs => simp [startsWithWord, ih (by simpa using h)]

/-- Where no character of a word follows, a word ends inside the text in front. -/
lemma startsWithWord_append_of_endsBefore {word cs rest : List Char}
    (hword : isSmallWord word = true)
    (hrest : endsBefore isWordPart rest = true) :
    startsWithWord word (cs ++ rest) = startsWithWord word cs := by
  induction word generalizing cs with
  | nil => rfl
  | cons a word ih =>
    simp only [isSmallWord, List.all_cons, Bool.and_eq_true] at hword
    cases cs with
    | nil =>
      cases rest with
      | nil => rfl
      | cons c rest =>
        have hc : foldsTo a c = false := by
          by_contra hfold
          have hpart := isWordPart_of_foldsTo hword.1 (eq_true_of_ne_false hfold)
          simp [endsBefore, hpart] at hrest
        simp [startsWithWord, hc]
    | cons c cs => simp [startsWithWord, ih hword.2]

/-- Only the first character of a text counts for where a word ends. -/
lemma endsBefore_append {p : Char → Bool} {cs rest : List Char}
    (hrest : endsBefore p rest = true) : endsBefore p (cs ++ rest) = endsBefore p cs := by
  cases cs with
  | nil => exact hrest
  | cons c cs => rfl

/-- A text that ends before a class ends before every smaller one. -/
lemma endsBefore_mono {p q : Char → Bool} (hpq : ∀ c, p c = true → q c = true) {cs : List Char}
    (h : endsBefore q cs = true) : endsBefore p cs = true := by
  cases cs with
  | nil => rfl
  | cons c cs =>
    simp only [endsBefore, Bool.not_eq_true'] at h ⊢
    by_contra hp
    simp [hpq c (eq_true_of_ne_false hp)] at h

end PromqlGuide.Text
