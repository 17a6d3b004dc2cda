import Mathlib.Data.List.Forall2
import PromqlGuide.Proofs.Text.SmallForm
import PromqlGuide.Text.Lowercase
import PromqlGuide.Token.Name

/-!
# Small letters of words that were read

A word is read in any letter case, and then written in small letters.  The two do not agree on three
characters: the dotless i, the dotted capital I and the long s are read as an i and an s, but none
of them becomes an i or an s in small letters.

Main statement: a text that was read as one of some words is one of them again, in small letters,
exactly if none of the three characters is in it (`lowercaseFrom_mem_iff`).
-/
namespace PromqlGuide.Text

/-- Whether a character is read as a small letter of ASCII although it is no case of that letter. -/
def isDisguised (c : Char) : Bool := c == '\u0131' || c == '\u0130' || c == '\u017f'

/-- Whether a character is in ASCII and no capital. -/
def isPlain (c : Char) : Bool := decide (c.toNat < 128) && c.toLower == c

/-- Whether a text is a word in some letter case. -/
def Folded (word cs : List Char) : Prop := List.Forall₂ (fun a c => foldsTo a c = true) word cs

instance (word cs : List Char) : Decidable (Folded word cs) :=
  inferInstanceAs (Decidable (List.Forall₂ _ word cs))

/-- A word is itself in some letter case. -/
lemma Folded.refl (word : List Char) : Folded word word := by
  rw [Folded, List.forall₂_same]
  exact fun c _ => foldsTo_self c

/-- A text of the length of a word that starts with it is that word in some letter case. -/
lemma folded_of_startsWithWord {word cs : List Char} (h : startsWithWord word cs = true)
    (hlength : cs.length = word.length) : Folded word cs := by
  induction word generalizing cs with
  | nil =>
    obtain rfl := List.eq_nil_of_length_eq_zero hlength
    exact .nil
  | cons a word ih =>
    cases cs with
    | nil => cases h
    | cons c cs =>
      simp only [startsWithWord, Bool.and_eq_true] at h
      exact .cons h.1 (ih h.2 (Nat.succ.inj hlength))

/-- A word in some letter case starts with that word. -/
lemma startsWithWord_of_folded {word cs : List Char} (h : Folded word cs) :
    startsWithWord word cs = true := by
  induction h with
  | nil => rfl
  | cons hc _ ih => rw [startsWithWord, hc, ih, Bool.and_self]

/-- A word is what its letter cases have in common. -/
lemma map_smallForm_of_folded {word cs : List Char} (hword : isSmallWord word = true)
    (h : Folded word cs) : cs.map smallForm = word := by
  have hstarts := prefix_map_smallForm hword (startsWithWord_of_folded h)
  exact (hstarts.eq_of_length (by rw [List.length_map, h.length_eq])).symm

/-! ### Characters -/

/-- What is read as a plain character without disguise has this one as its small letter. -/
lemma smallLetter_of_foldsTo {a c : Char} (ha : isPlain a = true) (h : foldsTo a c = true)
    (hc : isDisguised c = false) : c ≠ '\u03a3' ∧ c ≠ '\u0130' ∧ smallLetter c = a := by
  have upper : ∀ b ∈ smallLetters,
      b.toUpper ≠ '\u03a3' ∧ b.toUpper ≠ '\u0130' ∧ smallLetter b.toUpper = b := by
    decide
  rcases foldsTo_cases h with rfl | ⟨hmem, rfl | ⟨rfl, rfl | rfl⟩ | ⟨rfl, rfl⟩ | ⟨rfl, rfl⟩⟩
  · simp only [isPlain, Bool.and_eq_true, decide_eq_true_eq, beq_iff_eq] at ha
    obtain ⟨hbound, hlower⟩ := ha
    refine ⟨?_, ?_, by simp [smallLetter, hbound, hlower]⟩
    all_goals
      rintro rfl
      exact absurd hbound (by decide)
  · exact upper a hmem
  · cases hc
  · cases hc
  · cases hc
  · decide +kernel

/-- A disguised character leaves one outside ASCII. -/
lemma exists_of_isDisguised {c : Char} {before cs : List Char} (hc : isDisguised c = true) :
    ∃ d ∈ lowercaseFrom before (c :: cs), 128 ≤ d.toNat := by
  simp only [isDisguised, Bool.or_eq_true, beq_iff_eq] at hc
  have small : smallLetter '\u0131' = '\u0131' ∧ smallLetter '\u017f' = '\u017f' := by
    decide +kernel
  rcases hc with (rfl | rfl) | rfl
  · exact ⟨'\u0131', by simp [lowercaseFrom, small.1], by decide⟩
  · exact ⟨'\u0307', by simp [lowercaseFrom], by decide⟩
  · exact ⟨'\u017f', by simp [lowercaseFrom, small.2], by decide⟩

/-! ### Words -/

/-- Without disguise, a word in some letter case is the word in small letters. -/
lemma lowercaseFrom_of_folded {word cs : List Char} (hword : ∀ a ∈ word, isPlain a = true)
    (h : Folded word cs) (hcs : ∀ c ∈ cs, isDisguised c = false) (before : List Char) :
    lowercaseFrom before cs = word := by
  induction h generalizing before with
  | nil => rfl
  | @cons a c word cs hac _ ih =>
    rw [List.forall_mem_cons] at hword hcs
    obtain ⟨hsigma, hdotted, hsmall⟩ := smallLetter_of_foldsTo hword.1 hac hcs.1
    rw [lowercaseFrom, if_neg hsigma, if_neg hdotted, hsmall, ih hword.2 hcs.2]
    rfl

/-- With disguise, not all small letters are in ASCII. -/
lemma exists_mem_lowercaseFrom {c : Char} {cs : List Char} (hc : isDisguised c = true)
    (hmem : c ∈ cs)
    (before : List Char) : ∃ d ∈ lowercaseFrom before cs, 128 ≤ d.toNat := by
  induction cs generalizing before with
  | nil => exact absurd hmem List.not_mem_nil
  | cons b cs ih =>
    rcases List.mem_cons.1 hmem with rfl | hmem
    · exact exists_of_isDisguised hc
    · obtain ⟨d, hd, hbound⟩ := ih hmem (b :: before)
      exact ⟨d, by rw [lowercaseFrom]; exact List.mem_append_right _ hd, hbound⟩

/-- In small letters, a text that was read as one of the words is one of them exactly if no
character is in disguise. -/
theorem lowercaseFrom_mem_iff {words : List (List Char)} {cs : List Char}
    (hwords : ∀ w ∈ words, ∀ a ∈ w, isPlain a = true) (h : ∃ w ∈ words, Folded w cs) :
    lowercaseFrom [] cs ∈ words ↔ ∀ c ∈ cs, isDisguised c = false := by
  constructor
  · intro hmem c hc
    by_contra hdisguised
    obtain ⟨d, hd, hbound⟩ := exists_mem_lowercaseFrom (eq_true_of_ne_false hdisguised) hc []
    have hplain := hwords _ hmem d hd
    simp only [isPlain, Bool.and_eq_true, decide_eq_true_eq] at hplain
    exact absurd hplain.1 (Nat.not_lt.2 hbound)
  · intro hcs
    obtain ⟨w, hw, hfolded⟩ := h
    rw [lowercaseFrom_of_folded (hwords w hw) hfolded hcs]
    exact hw

/-! ### Tokens -/

/-- A word that reaches over a whole text is the text in some letter case. -/
lemma folded_of_wordLength {w cs : List Char} (h : Name.wordLength? w cs = some cs.length) :
    Folded w cs := by
  unfold Name.wordLength? at h
  split_ifs at h with hw
  exact folded_of_startsWithWord (Bool.and_eq_true_iff.1 hw).1 (Option.some.inj h).symm

/-- What is read as one of a list of words is one of them in some letter case. -/
lemma folded_of_anyWordLength {words : List (List Char)} {cs : List Char}
    (h : Name.anyWordLength? words cs = some cs.length) : ∃ w ∈ words, Folded w cs := by
  obtain ⟨w, hw, hlength⟩ := List.exists_of_findSome?_eq_some h
  exact ⟨w, hw, folded_of_wordLength hlength⟩

end PromqlGuide.Text
