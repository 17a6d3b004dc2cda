import Mathlib.Tactic.Common
import PromqlGuide.Text.LetterCase
import PromqlGuide.Text.Blank

/-!
# Where character classes lie

Bounds on the code points of whitespace, digits and name characters, and from them the facts that
tell the classes apart: whitespace, digits of any script, and the characters that start names are
three disjoint classes.

What is claimed of the characters of a list is decided by going through the list.
-/
namespace PromqlGuide.Text

/-! ### Deciding -/

-- There are finitely many characters, but too many to go through them all.
instance decidableForallMemChars {l : List Char} {p : Char → Prop} [DecidablePred p] :
    Decidable (∀ c ∈ l, p c) :=
  List.decidableBAll p l

instance decidableForallMemChar {o : Option Char} {p : Char → Prop} [DecidablePred p] :
    Decidable (∀ c ∈ o, p c) :=
  Option.decidableForallMem o

/-- What holds of each character below a bound is decided by going through them. -/
lemma of_toNat_lt {p : Char → Prop} {bound : Nat} (h : ∀ n < bound, p (Char.ofNat n)) {c : Char}
    (hc : c.toNat < bound) : p c := by
  simpa only [Char.ofNat_toNat] using h c.toNat hc

/-! ### Bounds -/

/-- The code points of the capitals of ASCII. -/
lemma isUpper_iff {c : Char} : c.isUpper = true ↔ 65 ≤ c.toNat ∧ c.toNat ≤ 90 := by
  unfold Char.isUpper
  simp [UInt32.le_iff_toNat_le]

/-- The code points of the small letters of ASCII. -/
lemma isLower_iff {c : Char} : c.isLower = true ↔ 97 ≤ c.toNat ∧ c.toNat ≤ 122 := by
  unfold Char.isLower
  simp [UInt32.le_iff_toNat_le]

/-- The code points of the letters of ASCII. -/
lemma isAlpha_iff {c : Char} :
    c.isAlpha = true ↔ (65 ≤ c.toNat ∧ c.toNat ≤ 90) ∨ (97 ≤ c.toNat ∧ c.toNat ≤ 122) := by
  rw [← isUpper_iff, ← isLower_iff, ← Bool.or_eq_true]
  rfl

/-- The code points of the characters that start names. -/
lemma toNat_of_isNameStart {c : Char} (h : isNameStart c = true) :
    (65 ≤ c.toNat ∧ c.toNat ≤ 90) ∨ c.toNat = 95 ∨ (97 ≤ c.toNat ∧ c.toNat ≤ 122) := by
  simp only [isNameStart, Bool.or_eq_true, beq_iff_eq] at h
  rcases h with h | rfl
  · have := isAlpha_iff.1 h
    omega
  · decide

/-- The code points of the characters of names. -/
lemma toNat_of_isNamePart {c : Char} (h : isNamePart c = true) :
    (48 ≤ c.toNat ∧ c.toNat ≤ 57) ∨ isNameStart c = true := by
  simp only [isNamePart, Char.isAlphanum, Bool.or_eq_true] at h
  rcases h with (h | h) | h
  · right; simp [isNameStart, h]
  · left; simpa [Char.isDigit, UInt32.le_iff_toNat_le] using h
  · right; simp [isNameStart, h]

/-- The case variants outside ASCII of ASCII letters. -/
def isVariant (c : Char) : Bool :=
  c == '\u0130' || c == '\u0131' || c == '\u017f' || c == '\u212a'

/-- The characters of words are those of metric names and the case variants of ASCII letters. -/
lemma isWordPart_eq (c : Char) : isWordPart c = (isMetricPart c || isVariant c) := by
  simp only [isWordPart, isVariant, Bool.or_assoc]

/-- The code points of the case variants. -/
lemma toNat_of_isVariant {c : Char} (h : isVariant c = true) :
    c.toNat = 0x130 ∨ c.toNat = 0x131 ∨ c.toNat = 0x17f ∨ c.toNat = 0x212a := by
  simp only [isVariant, Bool.or_eq_true, beq_iff_eq] at h
  rcases h with ((rfl | rfl) | rfl) | rfl <;> decide

/-- The code points of the characters of metric names. -/
lemma toNat_of_isMetricPart {c : Char} (h : isMetricPart c = true) :
    (48 ≤ c.toNat ∧ c.toNat ≤ 58) ∨ isNameStart c = true := by
  simp only [isMetricPart, Bool.or_eq_true, beq_iff_eq] at h
  rcases h with h | rfl
  · rcases toNat_of_isNamePart h with h | h
    · left; omega
    · exact Or.inr h
  · left; decide

/-- Digits lie in runs of ten, each from the zero of a script on. -/
lemma toNat_of_isDigit {c : Char} (h : isDigit c = true) :
    ∃ first ∈ digitZeros, first ≤ c.toNat ∧ c.toNat < first + 10 := by
  unfold isDigit digitValue? at h
  simp only at h
  split_ifs at h with hsmall hascii
  · exact ⟨0x30, by decide, by omega⟩
  · cases h
  · rw [Option.isSome_map] at h
    obtain ⟨first, hfirst⟩ := Option.isSome_iff_exists.1 h
    have hbounds := List.find?_some hfirst
    simp only [Bool.and_eq_true, decide_eq_true_eq] at hbounds
    exact ⟨first, List.mem_of_find?_eq_some hfirst, hbounds⟩

/-! ### Disjoint classes -/

/-- The code points of the whitespace characters, by the runs they form. -/
lemma toNat_of_isSpace {c : Char} (h : isSpace c = true) :
    (9 ≤ c.toNat ∧ c.toNat ≤ 32) ∨ c.toNat = 0x85 ∨ c.toNat = 0xA0 ∨ c.toNat = 0x1680 ∨
      (0x2000 ≤ c.toNat ∧ c.toNat ≤ 0x205F) ∨ c.toNat = 0x3000 := by
  simp only [isSpace, Bool.or_eq_true, Bool.and_eq_true, decide_eq_true_eq, beq_iff_eq] at h
  omega

/-- Whitespace is no part of a word. -/
lemma not_isWordPart_of_isSpace {c : Char} (h : isSpace c = true) : isWordPart c = false := by
  by_contra hpart
  have hspace := toNat_of_isSpace h
  rw [Bool.not_eq_false, isWordPart_eq, Bool.or_eq_true] at hpart
  rcases hpart with hpart | hpart
  · rcases toNat_of_isMetricPart hpart with hbound | hstart
    · omega
    · have := toNat_of_isNameStart hstart
      omega
  · have := toNat_of_isVariant hpart
    omega

/-- Whitespace is no digit. -/
lemma not_isDigit_of_isSpace {c : Char} (h : isSpace c = true) : isDigit c = false := by
  by_contra hdigit
  have hspace := toNat_of_isSpace h
  obtain ⟨first, hmem, hlow, hhigh⟩ := toNat_of_isDigit (Bool.not_eq_false _ ▸ hdigit)
  have apart : ∀ first ∈ digitZeros,
      32 < first ∧ (first + 10 ≤ 0x85 ∨ 0xA0 < first) ∧ (first + 10 ≤ 0x1680 ∨ 0x1680 < first) ∧
        (first + 10 ≤ 0x2000 ∨ 0x205F < first) ∧ (first + 10 ≤ 0x3000 ∨ 0x3000 < first) := by
    decide
  have := apart first hmem
  omega

/-- A digit starts no name. -/
lemma not_isNameStart_of_isDigit {c : Char} (h : isDigit c = true) : isNameStart c = false := by
  by_contra hstart
  obtain ⟨first, hmem, hlow, hhigh⟩ := toNat_of_isDigit h
  have apart : ∀ first ∈ digitZeros, first = 0x30 ∨ 0x660 ≤ first := by decide
  have := apart first hmem
  have := toNat_of_isNameStart (Bool.not_eq_false _ ▸ hstart)
  omega

/-- What starts a name starts a metric name. -/
lemma isMetricStart_of_isNameStart {c : Char} (h : isNameStart c = true) :
    isMetricStart c = true := by simp [isMetricStart, h]

/-- What starts a name can stand in it. -/
lemma isNamePart_of_isNameStart {c : Char} (h : isNameStart c = true) : isNamePart c = true := by
  simp only [isNameStart, Bool.or_eq_true] at h
  simp only [isNamePart, Char.isAlphanum, Bool.or_eq_true]
  tauto

/-- What starts a metric name can stand in it. -/
lemma isMetricPart_of_isMetricStart {c : Char} (h : isMetricStart c = true) :
    isMetricPart c = true := by
  simp only [isMetricStart, Bool.or_eq_true] at h
  simp only [isMetricPart, Bool.or_eq_true]
  exact h.imp_left isNamePart_of_isNameStart

end PromqlGuide.Text
