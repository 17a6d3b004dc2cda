import Mathlib.Data.List.Forall2
import PromqlGuide.Proofs.Text.SmallForm
import PromqlGuide.Text.Lowercase

/-!
# Letter case

Two texts are *recased* if they differ in nothing but the case of ASCII letters.  A class of
characters that holds a letter of ASCII in both cases or in neither does not tell recased texts
apart, so neither does what is computed from such classes (`IgnoresCase`).

Main statement: recased texts have the same small letters in every script (`lowercase_of_recased`).
-/
namespace PromqlGuide.Text

/-- Whether two characters are the same, or one letter of ASCII in two cases. -/
def SameLetter (c d : Char) : Prop := c.toLower = d.toLower

/-- Whether two texts differ in nothing but the case of ASCII letters. -/
def Recased (cs ds : List Char) : Prop := List.Forall₂ SameLetter cs ds

instance : DecidableRel SameLetter := fun c d => decEq c.toLower d.toLower

instance : DecidableRel Recased := fun cs ds => inferInstanceAs (Decidable (List.Forall₂ _ cs ds))

/-! ### Characters -/

/-- A capital is that of a small letter; other characters are their own small letter. -/
lemma eq_toUpper_or_toLower_eq (c : Char) :
    (c.toLower ∈ smallLetters ∧ c = c.toLower.toUpper) ∨ c.toLower = c := by
  by_cases hupper : c.isUpper = true
  · have hbound : c.toNat < 91 := Nat.lt_succ_of_le (isUpper_iff.1 hupper).2
    exact Or.inl (of_toNat_lt
      (p := fun c => c.isUpper = true → c.toLower ∈ smallLetters ∧ c = c.toLower.toUpper)
      (by decide) hbound hupper)
  · right
    unfold Char.toLower
    rw [dif_neg]
    intro hbounds
    apply hupper
    rw [isUpper_iff]
    simpa [UInt32.le_iff_toNat_le] using hbounds

/-- The same letter is the same character, or a small letter and its capital. -/
lemma SameLetter.cases {c d : Char} (h : SameLetter c d) :
    c = d ∨ (c ∈ smallLetters ∧ d = c.toUpper) ∨ (d ∈ smallLetters ∧ c = d.toUpper) := by
  unfold SameLetter at h
  rcases eq_toUpper_or_toLower_eq c with ⟨hc, hupper⟩ | hc <;>
    rcases eq_toUpper_or_toLower_eq d with ⟨hd, hupper'⟩ | hd
  · exact Or.inl (by rw [hupper, hupper', h])
  · exact Or.inr (Or.inr ⟨hd ▸ h ▸ hc, by rw [← hd, ← h]; exact hupper⟩)
  · exact Or.inr (Or.inl ⟨hc ▸ h ▸ hd, by rw [← hc, h]; exact hupper'⟩)
  · exact Or.inl (hc.symm.trans (h.trans hd))

/-- Whether a function of characters is the same for a letter of ASCII in either case. -/
def IgnoresCase {α : Type} (f : Char → α) : Prop := ∀ c d, SameLetter c d → f c = f d

/-- What ignores the case of each small letter ignores the case of all characters. -/
lemma ignoresCase_of_smallLetters {α : Type} {f : Char → α}
    (h : ∀ a ∈ smallLetters, f a.toUpper = f a) : IgnoresCase f := by
  intro c d hcd
  rcases hcd.cases with rfl | ⟨hc, rfl⟩ | ⟨hd, rfl⟩
  · rfl
  · exact (h c hc).symm
  · exact h d hd

/-- Whitespace is told from other characters in any case. -/
lemma ignoresCase_isSpace : IgnoresCase isSpace := ignoresCase_of_smallLetters (by decide)

/-- Digits are told from other characters in any case. -/
lemma ignoresCase_isDigit : IgnoresCase isDigit := ignoresCase_of_smallLetters (by decide)

/-- What starts a name does so in either case. -/
lemma ignoresCase_isNameStart : IgnoresCase isNameStart := ignoresCase_of_smallLetters (by decide)

/-- What stands in a name does so in either case. -/
lemma ignoresCase_isNamePart : IgnoresCase isNamePart := ignoresCase_of_smallLetters (by decide)

/-- What starts a metric name does so in either case. -/
lemma ignoresCase_isMetricStart :
    IgnoresCase isMetricStart := ignoresCase_of_smallLetters (by decide)

/-- What stands in a metric name does so in either case. -/
lemma ignoresCase_isMetricPart : IgnoresCase isMetricPart := ignoresCase_of_smallLetters (by decide)

/-- What stands in a word does so in either case. -/
lemma ignoresCase_isWordPart : IgnoresCase isWordPart := ignoresCase_of_smallLetters (by decide)

/-- A character that is no letter of ASCII is told from all others in any case. -/
lemma ignoresCase_beq {a : Char} (ha : a.isAlpha = false) : IgnoresCase (· == a) := by
  refine ignoresCase_of_smallLetters fun b hb => ?_
  have alpha : ∀ b ∈ smallLetters, b.isAlpha = true ∧ b.toUpper.isAlpha = true := by decide
  have hne : b ≠ a ∧ b.toUpper ≠ a := by
    constructor
    · rintro rfl
      simp [(alpha _ hb).1] at ha
    · rintro rfl
      simp [(alpha _ hb).2] at ha
  rw [beq_eq_false_iff_ne.2 hne.1, beq_eq_false_iff_ne.2 hne.2]

/-- A character that is no letter of ASCII is the same letter as itself only. -/
lemma SameLetter.eq_iff {a c d : Char} (ha : a.isAlpha = false) (h : SameLetter c d) :
    c = a ↔ d = a := by
  have hsame : (c == a) = (d == a) := ignoresCase_beq ha c d h
  rw [← beq_iff_eq, hsame, beq_iff_eq]

/-- Folding to a character that is written small ignores case. -/
lemma ignoresCase_foldsTo {a : Char} (ha : isSmall a = true) : IgnoresCase (foldsTo a) := by
  have listed : ∀ a ∈ smallLetters ++ wordSigns, ∀ b ∈ smallLetters,
      foldsTo a b.toUpper = foldsTo a b := by decide
  exact ignoresCase_of_smallLetters (listed a (of_decide_eq_true ha))

/-! ### Texts -/

namespace Recased

variable {α : Type} {f : Char → α} {p : Char → Bool} {cs ds es fs : List Char}

/-- A text is itself recased. -/
protected lemma rfl : Recased cs cs := List.forall₂_same.2 fun _ _ => rfl

/-- Recased texts are equally long. -/
lemma length_eq (h : Recased cs ds) : cs.length = ds.length := List.Forall₂.length_eq h

/-- What is left of recased texts is recased. -/
lemma drop (h : Recased cs ds) (n : Nat) : Recased (cs.drop n) (ds.drop n) := List.forall₂_drop n h

/-- Recased texts behind recased texts are recased. -/
lemma append (h : Recased cs ds) (h' : Recased es fs) : Recased (cs ++ es) (ds ++ fs) :=
  List.rel_append h h'

/-- What ignores case has the same values along recased texts. -/
lemma map_eq (h : Recased cs ds) (hf : IgnoresCase f) : cs.map f = ds.map f := by
  induction h with
  | nil => rfl
  | cons hcd _ ih => rw [List.map_cons, List.map_cons, hf _ _ hcd, ih]

/-- A run ends in front of both of two recased texts or of neither. -/
lemma endsBefore_eq (h : Recased cs ds) (hp : IgnoresCase p) :
    endsBefore p cs = endsBefore p ds := by
  cases h with
  | nil => rfl
  | cons hcd => simp only [endsBefore, hp _ _ hcd]

/-- What is left of recased texts behind a run is recased. -/
lemma dropWhile (h : Recased cs ds) (hp : IgnoresCase p) :
    Recased (cs.dropWhile p) (ds.dropWhile p) := by
  induction h with
  | nil => exact .nil
  | @cons c d cs ds hcd h ih =>
    rw [List.dropWhile_cons, List.dropWhile_cons, hp c d hcd]
    split
    · exact ih
    · exact .cons hcd h

/-- The runs at the start of recased texts are equally long. -/
lemma length_takeWhile_eq (h : Recased cs ds) (hp : IgnoresCase p) :
    (cs.takeWhile p).length = (ds.takeWhile p).length := by
  induction h with
  | nil => rfl
  | @cons c d cs ds hcd h ih =>
    rw [List.takeWhile_cons, List.takeWhile_cons, hp c d hcd]
    split
    · simp only [List.length_cons, ih]
    · rfl

/-- Of recased texts both start with a character that is no letter, or neither does. -/
lemma starts_cases {a : Char} (ha : a.isAlpha = false) (h : Recased cs ds) :
    (∃ es fs, cs = a :: es ∧ ds = a :: fs ∧ Recased es fs) ∨
      ((∀ es, cs ≠ a :: es) ∧ ∀ fs, ds ≠ a :: fs) := by
  cases h with
  | nil => exact Or.inr ⟨nofun, nofun⟩
  | @cons c d cs ds hcd h =>
    by_cases hc : c = a
    · exact Or.inl ⟨cs, ds, by rw [hc], by rw [(hcd.eq_iff ha).1 hc], h⟩
    · refine Or.inr ⟨fun es heq => hc (List.cons.inj heq).1, fun fs heq => hc ?_⟩
      exact (hcd.eq_iff ha).2 (List.cons.inj heq).1

/-- Of recased texts both are a text without letters, or neither is. -/
lemma eq_iff {l : List Char} (hl : ∀ a ∈ l, a.isAlpha = false) (h : Recased cs ds) :
    cs = l ↔ ds = l := by
  induction h generalizing l with
  | nil => exact Iff.rfl
  | cons hcd _ ih =>
    cases l with
    | nil => exact iff_of_false (List.cons_ne_nil _ _) (List.cons_ne_nil _ _)
    | cons a l =>
      rw [List.cons_eq_cons, List.cons_eq_cons, hcd.eq_iff (hl a List.mem_cons_self),
        ih fun b hb => hl b (List.mem_cons_of_mem a hb)]

end Recased

/-! ### Small letters -/

/-- A letter of ASCII has the same small form in either case. -/
lemma ignoresCase_smallLetter : IgnoresCase smallLetter := ignoresCase_of_smallLetters (by decide)

/-- Whether a character is passed over next to a final sigma does not depend on case. -/
lemma ignoresCase_isCaseIgnorable : IgnoresCase isCaseIgnorable :=
  ignoresCase_of_smallLetters (by decide +kernel)

/-- Whether a character has a case does not depend on which one it is in. -/
lemma ignoresCase_isCased : IgnoresCase fun c => withinBounds casedBounds c.toNat :=
  ignoresCase_of_smallLetters (by decide +kernel)

/-- A cased letter is met in both of two recased texts or in neither. -/
lemma meetsCased_of_recased {cs ds : List Char} (h : Recased cs ds) :
    meetsCased cs = meetsCased ds := by
  have hmore := h.dropWhile ignoresCase_isCaseIgnorable
  unfold meetsCased
  generalize cs.dropWhile isCaseIgnorable = es, ds.dropWhile isCaseIgnorable = fs at hmore ⊢
  cases hmore with
  | nil => rfl
  | cons hcd => exact ignoresCase_isCased _ _ hcd

/-- Recased texts with recased texts in front of them have the same small letters. -/
lemma lowercaseFrom_of_recased {before before' cs ds : List Char} (hbefore : Recased before before')
    (h : Recased cs ds) : lowercaseFrom before cs = lowercaseFrom before' ds := by
  induction h generalizing before before' with
  | nil => rfl
  | @cons c d cs ds hcd h ih =>
    simp only [lowercaseFrom, hcd.eq_iff (a := '\u03a3') (by decide),
      hcd.eq_iff (a := '\u0130') (by decide),
      meetsCased_of_recased hbefore, meetsCased_of_recased h, ignoresCase_smallLetter c d hcd,
      ih (List.Forall₂.cons hcd hbefore : Recased (c :: before) (d :: before'))]

/-- Recased texts have the same small letters. -/
theorem lowercase_of_recased {cs ds : List Char} (h : Recased cs ds) :
    lowercase (String.ofList cs) = lowercase (String.ofList ds) := by
  simp only [lowercase, String.toList_ofList, lowercaseFrom_of_recased .nil h]

end PromqlGuide.Text
