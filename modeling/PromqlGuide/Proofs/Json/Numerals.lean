import Mathlib.Tactic.Common
import PromqlGuide.Json.Reader
import PromqlGuide.Json.Writer
import PromqlGuide.Text.LetterCase

/-!
# Whole numbers of JSON texts

The decimal text of a whole number is read as the number, provided that nothing behind it goes on
with the number and that it has few enough digits to be read.

Main statement: a whole number within the limit is read back (`Json.readNumber_toString`).
-/
namespace PromqlGuide

open Text

/-! ### Decimal digits -/

namespace Text

/-- The value of an ASCII digit is its distance from zero. -/
lemma digitValue_ascii {c : Char} (hc : c.isDigit = true) :
    digitValue? c = some (c.toNat - '0'.toNat) := by
  have hrange : 0x30 ≤ c.toNat ∧ c.toNat < 0x3A := by
    simp only [Char.isDigit, Bool.and_eq_true, decide_eq_true_eq, ge_iff_le,
      UInt32.le_iff_toNat_le] at hc
    exact ⟨hc.1, Nat.lt_succ_of_le hc.2⟩
  unfold digitValue?
  rw [if_pos (by omega), if_pos hrange]
  rfl

/-- The decimal digits of a number have its value. -/
lemma digitsValue_toDigits (n : Nat) : digitsValue (Nat.toDigits 10 n) = n := by
  have hfold : ∀ cs : List Char, (∀ c ∈ cs, c.isDigit = true) → ∀ acc : Nat,
      cs.foldl (fun acc c => acc * 10 + (digitValue? c).getD 0) acc =
        cs.foldl (fun acc c => 10 * acc + (c.toNat - '0'.toNat)) acc := by
    intro cs
    induction cs with
    | nil => intro _ _; rfl
    | cons c cs ih =>
      intro hcs acc
      rw [List.foldl_cons, List.foldl_cons, digitValue_ascii (hcs c List.mem_cons_self),
        Option.getD_some, Nat.mul_comm acc 10]
      exact ih (fun d hd => hcs d (List.mem_cons_of_mem c hd)) _
  rw [digitsValue, hfold _ fun c => Nat.isDigit_of_mem_toDigits (by decide) (by decide),
    ← Nat.ofDigitChars_eq_foldl, Nat.ofDigitChars_ten_toDigits]

/-- The decimal digits of a number are digits. -/
lemma isDigit_of_mem_toDigits {n : Nat} {c : Char} (hc : c ∈ Nat.toDigits 10 n) :
    isDigit c = true := by
  rw [isDigit, digitValue_ascii (Nat.isDigit_of_mem_toDigits (by decide) (by decide) hc)]
  rfl

/-- A whole number can be written exactly if it has few enough digits. -/
lemma isWritable_iff {n : Int} :
    isWritable n = true ↔ (Nat.toDigits 10 n.natAbs).length ≤ numeralLimit := by
  have hpow : ∀ limit, Nat.pow 10 limit = 10 ^ limit := fun _ => rfl
  unfold isWritable numeralBound
  rw [decide_eq_true_eq, hpow]
  exact (Nat.length_toDigits_le_iff (by decide) (by decide)).symm

/-- Only the number zero is written with a leading zero. -/
lemma toDigits_of_leading_zero {n : Nat} {cs : List Char} (h : Nat.toDigits 10 n = '0' :: cs) :
    cs = [] := by
  induction n using Nat.strongRecOn generalizing cs with
  | ind n ih =>
    by_cases hn : n < 10
    · rw [Nat.toDigits_of_lt_base hn, List.cons.injEq] at h
      exact h.2.symm
    · rw [Nat.toDigits_of_base_le (by decide) (Nat.le_of_not_lt hn)] at h
      cases hfront : Nat.toDigits 10 (n / 10) with
      | nil => exact absurd hfront Nat.toDigits_ne_nil
      | cons c ds =>
        rw [hfront, List.cons_append, List.cons.injEq] at h
        obtain ⟨rfl, -⟩ := h
        -- the digits in front stand for zero, so there are none
        have hds := ih (n / 10) (by omega) hfront
        have hzero := digitsValue_toDigits (n / 10)
        rw [hfront, hds] at hzero
        have : n / 10 = 0 := hzero.symm
        omega

end Text

namespace Json

/-! ### Reading a number -/

/-- Whether a character behind a digit goes on with the number. -/
def isNumberPart (c : Char) : Bool := c.isDigit || c == '.' || c == 'e' || c == 'E'

/-- Digits in front of something else are all that is read of digits. -/
lemma digitRun_append {digits rest : List Char} (hdigits : ∀ c ∈ digits, c.isDigit = true)
    (hrest : endsBefore Char.isDigit rest = true) : digitRun (digits ++ rest) = (digits, rest) := by
  have hnone : rest.takeWhile Char.isDigit = [] ∧ rest.dropWhile Char.isDigit = rest := by
    cases rest with
    | nil => exact ⟨rfl, rfl⟩
    | cons c cs =>
      simp only [endsBefore, Bool.not_eq_true'] at hrest
      simp [hrest]
  rw [digitRun, List.takeWhile_append_of_pos hdigits, List.dropWhile_append_of_pos hdigits, hnone.1,
    hnone.2, List.append_nil]

/-- No digit follows where nothing goes on with a number. -/
lemma endsBefore_isDigit {rest : List Char} (hrest : endsBefore isNumberPart rest = true) :
    endsBefore Char.isDigit rest = true := by
  cases rest with
  | nil => rfl
  | cons c cs =>
    simp [endsBefore, isNumberPart] at hrest ⊢
    exact hrest.1.1.1

/-- Where the number does not go on there is no fraction. -/
lemma readFraction_eq_none {rest : List Char} (hrest : endsBefore isNumberPart rest = true) :
    readFraction rest = none := by
  unfold readFraction
  split
  · simp [endsBefore, isNumberPart] at hrest
  · rfl

/-- Where the number does not go on there is no exponent. -/
lemma readExponent_eq_none {rest : List Char} (hrest : endsBefore isNumberPart rest = true) :
    readExponent rest = none := by
  cases rest with
  | nil => rfl
  | cons c cs =>
    simp only [endsBefore, isNumberPart, Bool.not_or, Bool.and_eq_true, Bool.not_eq_true',
      beq_eq_false_iff_ne] at hrest
    have hc : ¬(c = 'e' ∨ c = 'E') := not_or.2 ⟨hrest.1.2, hrest.2⟩
    unfold readExponent
    exact if_neg hc

/-- The digits of a number that nothing goes on with are read as the number. -/
lemma readUnsigned_toDigits {numeral : NumeralReader} {n : Nat} {rest : List Char}
    (hnumeral : numeral (Nat.toDigits 10 n) = .ok n) (hrest : endsBefore isNumberPart rest = true)
    (negative : Bool) :
    readUnsigned numeral negative (Nat.toDigits 10 n ++ rest) =
      .ok (.int (if negative then -(n : Int) else n), rest) := by
  have hrun : digitRun (Nat.toDigits 10 n ++ rest) = (Nat.toDigits 10 n, rest) :=
    digitRun_append (fun c => Nat.isDigit_of_mem_toDigits (by decide) (by decide))
      (endsBefore_isDigit hrest)
  unfold readUnsigned
  rw [hrun]
  cases hdigits : Nat.toDigits 10 n with
  | nil => exact absurd hdigits Nat.toDigits_ne_nil
  | cons first more =>
    rw [hdigits] at hnumeral
    -- a leading zero stands alone, so all digits are read in either case
    have hwhole : (if first = '0' then (['0'], more ++ rest) else (first :: more, rest)) =
        (first :: more, rest) := by
      by_cases hfirst : first = '0'
      · subst hfirst
        rw [if_pos rfl, toDigits_of_leading_zero hdigits]
        rfl
      · rw [if_neg hfirst]
    simp only [hwhole, readFraction_eq_none hrest, Option.getD_none, readExponent_eq_none hrest,
      Option.isNone_none, Bool.and_self, if_true, hnumeral]

/-- The text of a whole number: its digits, behind a minus sign if it is negative. -/
lemma toList_toString (n : Int) :
    (toString n).toList =
      if n < 0 then '-' :: Nat.toDigits 10 n.natAbs else Nat.toDigits 10 n.natAbs := by
  have hrepr : toString n = n.repr := rfl
  rw [hrepr, Int.repr_eq_if]
  by_cases hn : n < 0
  · have habs : (-n).toNat = n.natAbs := by omega
    rw [if_neg (by omega), if_pos hn, habs, Nat.repr_eq_ofList_toDigits]
    simp
  · have habs : n.toNat = n.natAbs := by omega
    rw [if_pos (by omega), if_neg hn, habs, Nat.repr_eq_ofList_toDigits]
    simp

/-- The text of a whole number starts with a minus sign or a digit. -/
lemma head_toString (n : Int) :
    ∃ c cs, (toString n).toList = c :: cs ∧ (c = '-' ∨ c.isDigit = true) := by
  rw [toList_toString]
  by_cases hn : n < 0
  · exact ⟨'-', _, if_pos hn, .inl rfl⟩
  · rw [if_neg hn]
    cases hdigits : Nat.toDigits 10 n.natAbs with
    | nil => exact absurd hdigits Nat.toDigits_ne_nil
    | cons c cs =>
      refine ⟨c, cs, rfl, .inr ?_⟩
      exact Nat.isDigit_of_mem_toDigits (by decide) (by decide) (hdigits ▸ List.mem_cons_self)

/-- No word starts as a number does. -/
lemma readWord?_of_isDigit {c : Char} (hc : c.isDigit = true) (cs : List Char) :
    readWord? (c :: cs) = none ∧ readWord? ('-' :: c :: cs) = none := by
  have hne : ∀ d : Char, d.isDigit = false → d ≠ c := by
    rintro d hd rfl
    exact absurd (hc.symm.trans hd) (by decide)
  constructor <;>
    simp [readWord?, words, hne 'n' rfl, hne 't' rfl, hne 'f' rfl, hne 'N' rfl, hne 'I' rfl,
      hne '-' rfl]

/-- A whole number with few enough digits is read back. -/
lemma readNumber_toString {numeral : NumeralReader} {n : Int} {rest : List Char}
    (hnumeral : numeral (Nat.toDigits 10 n.natAbs) = .ok n.natAbs)
    (hrest : endsBefore isNumberPart rest = true) :
    readNumber numeral ((toString n).toList ++ rest) = .ok (.int n, rest) := by
  rw [toList_toString]
  by_cases hn : n < 0
  · have hvalue : -(n.natAbs : Int) = n := by omega
    rw [if_pos hn, List.cons_append, readNumber, readUnsigned_toDigits hnumeral hrest, if_pos rfl,
      hvalue]
  · have hvalue : (n.natAbs : Int) = n := by omega
    rw [if_neg hn, readNumber, readUnsigned_toDigits hnumeral hrest]
    · simp [hvalue]
    · intro cs hcs
      have hmem : '-' ∈ Nat.toDigits 10 n.natAbs := by
        cases hdigits : Nat.toDigits 10 n.natAbs with
        | nil => exact absurd hdigits Nat.toDigits_ne_nil
        | cons c ds =>
          rw [hdigits, List.cons_append, List.cons.injEq] at hcs
          rw [hcs.1]
          exact List.mem_cons_self
      exact absurd (Nat.isDigit_of_mem_toDigits (by decide) (by decide) hmem) (by decide)

/-- A whole number within the limit has few enough digits to be read. -/
lemma readNumeral_toDigits {n : Int} (hn : Text.isWritable n = true) :
    readNumeral (Nat.toDigits 10 n.natAbs) = .ok n.natAbs :=
  readNumeral_eq_ok_iff.2 ⟨isWritable_iff.1 hn, (digitsValue_toDigits n.natAbs).symm⟩

end Json

end PromqlGuide
